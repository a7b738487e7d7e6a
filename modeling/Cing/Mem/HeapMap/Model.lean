/-
mem_heap.c: the map of a heap of the `mem` subsystem. It is one array of words: the heads of the class lists and of the slot
list, then the slots, two words each. The lengths are in bytes and the indices in words, so the code puts the slots behind the
first 256 words and takes the map for eight times as long as it is.
-/
import Cing.Lib.Linked
import Cing.Util.Log2
import Cing.Mem.Model

namespace Cing

/-- `mem_heap_t` with the words from its map on. The array may be longer than the `map_size` bytes that belong to the map. -/
structure MemHeap where
  add0 : Nat
  addZ : Nat
  map : Nat
  mapSize : Nat
  words : Words
  mapSize_lt : mapSize < 2 ^ 64

/-- The heap with word `i` of the map set. -/
def MemHeap.store (heap : MemHeap) (i v : Nat) : MemHeap := { heap with words := Function.update heap.words i v }

abbrev HeapMapM := EStateM Stop MemHeap

namespace HeapMap

open Mem (memAlignCheck memBootstrapStageFinish)

def classMax : Nat := 15
def bootstrapBuffSize : Nat := 65536

/-- `sizeof(mem_heap_t)`. -/
def memHeapLen : Nat := 32

def mapNull : Nat := 2 ^ 64 - 1

/-- `sizeof(u64_t)`. -/
def wordLen : Nat := 8

variable {σ : Type}

/-- `_page_max`. -/
def pageMax (heap : MemHeap) : Nat := u64Sub heap.addZ heap.add0 / pageSize4K

/-- `_map_header_len`. -/
def mapHeaderLen : Nat := wordLen * 2 * (classMax + 1)

/-- `_map_max_heap`. -/
def mapMaxHeap (mapSize : Nat) : EStateM Stop σ Nat := do
  kernelAssert (mapSize % pageSize4K = 0) "map_size % PAGE_SIZE_VALUE_4K == 0"
  let size := u64Sub mapSize mapHeaderLen
  kernelAssert (size % (wordLen * 2) = 0) "size % (sizeof(u64_t) * 2) == 0"
  return u64 (size / (wordLen * 2 * 2) * pageSize4K)

/-- `_map_slot_max`. -/
def mapSlotMax (heap : MemHeap) : Nat := u64Sub heap.mapSize mapHeaderLen / 2

/-- The index that `_map_slot_idx` returns. -/
def slotIdx (slot : Nat) : Nat := u64 (mapHeaderLen + u64 (slot * 2))

/-- `heap->map[i] = v`. -/
def setWord (i v : Nat) : HeapMapM Unit := modify fun heap => heap.store i v

section Slots

variable (dbg : Bool)

/-- `_map_slot_idx`. -/
def mapSlotIdx (slot : Nat) : HeapMapM Nat := do
  let heap ← get
  kernelAssertD dbg (slot < mapSlotMax heap) "slot < _map_slot_max(heap)"
  return slotIdx slot

/-- `_map_slot_set_slot`. -/
def mapSlotSetSlot (slot setSlot : Nat) : HeapMapM Unit := do
  let heap ← get
  kernelAssertD dbg (slot < mapSlotMax heap) "slot < _map_slot_max(heap)"
  kernelAssertD dbg (setSlot = mapNull ∨ setSlot < mapSlotMax heap) "set_slot == _MAP_NULL || set_slot < _map_slot_max(heap)"
  setWord (← mapSlotIdx dbg slot) setSlot
  setWord ((← mapSlotIdx dbg slot) + 1) setSlot

/-- `_map_slot_set_page`. -/
def mapSlotSetPage (slot page : Nat) : HeapMapM Unit := do
  let heap ← get
  kernelAssertD dbg (slot < mapSlotMax heap) "slot < _map_slot_max(heap)"
  kernelAssertD dbg (page = mapNull ∨ page < pageMax heap) "page == _MAP_NULL || page < _page_max(heap)"
  setWord (← mapSlotIdx dbg slot) page

/-- `_map_slot_set_next`. -/
def mapSlotSetNext (slot next : Nat) : HeapMapM Unit := do
  let heap ← get
  kernelAssertD dbg (slot < mapSlotMax heap) "slot < _map_slot_max(heap)"
  kernelAssertD dbg (next = mapNull ∨ next < mapSlotMax heap) "next == _MAP_NULL || next < _map_slot_max(heap)"
  setWord ((← mapSlotIdx dbg slot) + 1) next

/-- `_map_slot_get_page`. -/
def mapSlotGetPage (slot : Nat) : HeapMapM Nat := do
  let heap ← get
  kernelAssertD dbg (slot < mapSlotMax heap) "slot < _map_slot_max(heap)"
  let idx ← mapSlotIdx dbg slot
  return heap.words idx

/-- `_map_slot_get_next`. -/
def mapSlotGetNext (slot : Nat) : HeapMapM Nat := do
  let heap ← get
  kernelAssertD dbg (slot < mapSlotMax heap) "slot < _map_slot_max(heap)"
  let idx ← mapSlotIdx dbg slot
  return heap.words (idx + 1)

/-- `_map_slots_idx`. -/
def mapSlotsIdx : Nat := classMax * 2

/-- `_map_slots_dequeue`. -/
def mapSlotsDequeue : HeapMapM Nat := do
  let heap ← get
  let head := mapSlotsIdx
  kernelAssertD dbg (heap.words head ≠ mapNull) "heap->map[head] != _MAP_NULL"
  kernelAssertD dbg (heap.words (head + 1) ≠ mapNull) "heap->map[head + 1] != _MAP_NULL"
  let slot := heap.words head
  kernelAssertD dbg (slot < mapSlotMax heap) "slot < _map_slot_max(heap)"
  let next ← mapSlotGetNext dbg slot
  let page ← mapSlotGetPage dbg slot
  kernelAssertD dbg (page = next) "_map_slot_get_page(heap, slot) == next"
  if next = mapNull then do
    kernelAssertD dbg (heap.words head = heap.words (head + 1)) "heap->map[head] == heap->map[head + 1]"
    setWord head mapNull
    setWord (head + 1) mapNull
  else do
    kernelAssertD dbg (heap.words head ≠ heap.words (head + 1)) "heap->map[head] != heap->map[head + 1]"
    setWord head next
  -- not the slot that was taken off the list
  return next

/-- `_map_slots_enqueue`. -/
def mapSlotsEnqueue (slot : Nat) : HeapMapM Unit := do
  let heap ← get
  kernelAssertD dbg (slot < mapSlotMax heap) "slot < _map_slot_max(heap)"
  let head := mapSlotsIdx
  if heap.words head = mapNull then do
    kernelAssertD dbg (heap.words (head + 1) = mapNull) "heap->map[head + 1] == _MAP_NULL"
    setWord head slot
    setWord (head + 1) slot
    mapSlotSetPage dbg slot mapNull
    mapSlotSetNext dbg slot mapNull
  else do
    kernelAssertD dbg (heap.words (head + 1) ≠ mapNull) "heap->map[head + 1] != _MAP_NULL"
    let tailSlot := heap.words (head + 1)
    kernelAssertD dbg (tailSlot < mapSlotMax heap) "tail_slot < _map_slot_max(heap)"
    kernelAssertD dbg ((← mapSlotGetNext dbg tailSlot) = mapNull) "_map_slot_get_next(heap, tail_slot) == _MAP_NULL"
    kernelAssertD dbg ((← mapSlotGetPage dbg tailSlot) = mapNull) "_map_slot_get_page(heap, tail_slot) == _MAP_NULL"
    mapSlotSetPage dbg slot mapNull
    mapSlotSetNext dbg slot mapNull
    -- the word after the head is not set to the new tail
    mapSlotSetSlot dbg tailSlot slot

/-- `_map_list_idx`. -/
def mapListIdx (list : Nat) : HeapMapM Nat := do
  kernelAssertD dbg (list < classMax) "list < _CLASS_MAX"
  return u64 (list * 2)

/-- `_map_list_enqueue`. The class is cut to a byte for `util_math_2_exp`. -/
def mapListEnqueue (pg0 cls : Nat) : HeapMapM Unit := do
  kernelAssertD dbg (cls < classMax) "class < _CLASS_MAX"
  kernelAssertD dbg (pg0 % utilMath2Exp (cls % 256) = 0) "pg_0 % util_math_2_exp((u8_t) class) == 0"
  let head ← mapListIdx dbg cls
  let slot ← mapSlotsDequeue dbg
  mapSlotSetPage dbg slot pg0
  mapSlotSetNext dbg slot mapNull
  let heap ← get
  if heap.words head = mapNull then do
    kernelAssertD dbg (heap.words (head + 1) = mapNull) "heap->map[head + 1] == _MAP_NULL"
    setWord head slot
    setWord (head + 1) slot
  else do
    kernelAssertD dbg (heap.words (head + 1) ≠ mapNull) "heap->map[head + 1] != _MAP_NULL"
    let tailSlot := heap.words (head + 1)
    kernelAssertD dbg ((← mapSlotGetNext dbg tailSlot) = mapNull) "_map_slot_get_next(heap, tail_slot) == _MAP_NULL"
    mapSlotSetNext dbg tailSlot slot

/-- The loop of `_map_init` over the class lists, for one of them. -/
def mapInitClear (cls : Nat) : HeapMapM Unit := do
  setWord (← mapListIdx dbg cls) mapNull
  setWord ((← mapListIdx dbg cls) + 1) mapNull

/-- The loop of `_map_init` that cuts the heap, at most `n` rounds. 64 rounds of `util_math_log_2_down` are enough for every
value for which it ends. -/
def mapInitCut (size : Nat) : Nat → Nat → HeapMapM Unit
  | 0, _ => throw .hang
  | n + 1, cut => if cut < size ∧ u64Sub size cut ≥ pageSize4K then do
      let cls ← utilMathLog2Down (u64Sub size cut) 64
      kernelAssertD dbg (cls < classMax) "class < _CLASS_MAX"
      let cutPg := cut / pageSize4K
      kernelAssertD dbg (cutPg % utilMath2Exp (cls % 256) = 0) "cut_pg % util_math_2_exp((u8_t) class) == 0"
      mapListEnqueue dbg cutPg cls
      mapInitCut size n (u64 (cut + u64 (utilMath2Exp (cls % 256) * pageSize4K)))
    else return ()

/-- `_map_init`, with at most `n` rounds of its last loop. -/
def mapInit (heapAdd heapSize n : Nat) : HeapMapM Nat := do
  let heap ← get
  kernelAssert (memAlignCheck heap.map pageSize4K) "mem_align_check((uptr_t)(heap->map), PAGE_SIZE_VALUE_4K)"
  kernelAssert (heap.mapSize % pageSize4K = 0) "heap->map_size % PAGE_SIZE_VALUE_4K == 0"
  kernelAssert (heap.mapSize > mapHeaderLen) "heap->map_size > _map_header_len()"
  kernelAssert (memAlignCheck heapAdd pageSize4K) "mem_align_check(heap_add, PAGE_SIZE_VALUE_4K)"
  kernelAssert (heapSize % pageSize4K = 0) "heap_size % PAGE_SIZE_VALUE_4K == 0"
  let maxHeap ← mapMaxHeap heap.mapSize
  let size := if heapSize < maxHeap then heapSize else maxHeap
  kernelAssertD dbg (size > pageSize4K) "size > PAGE_SIZE_VALUE_4K"
  modify fun heap => { heap with add0 := heapAdd, addZ := u64 (heapAdd + size) }
  (List.range classMax).forM (mapInitClear dbg)
  setWord mapSlotsIdx mapNull
  setWord (mapSlotsIdx + 1) mapNull
  (List.range (mapSlotMax heap)).forM (mapSlotsEnqueue dbg)
  mapInitCut dbg size n 0
  return size

/-- The map that `mem_heap_new_bootstrap` puts into `_bootstrap_buff`. -/
def bootstrapStart (heap : MemHeap) (bootstrapBuff : Nat) : MemHeap :=
  { heap with map := bootstrapBuff + pageSize4K, mapSize := bootstrapBuffSize - pageSize4K, mapSize_lt := by decide }

/-- `mem_heap_new_bootstrap`, with `boot_stage` and the address of `_bootstrap_buff`. It returns whether there is a heap, which
is the state. -/
def memHeapNewBootstrap (bootStage bootstrapBuff heapAdd heapSize n : Nat) : HeapMapM Bool := do
  kernelAssert (bootStage < memBootstrapStageFinish) "boot_stage < MEM_BOOTSTRAP_STAGE_FINISH"
  kernelAssert (memHeapLen < pageSize4K) "sizeof(mem_heap_t) < PAGE_SIZE_4K"
  if ¬ memAlignCheck heapAdd pageSize4K then
    return false
  if heapSize % pageSize4K ≠ 0 then
    return false
  modify fun heap => bootstrapStart heap bootstrapBuff
  let _ ← mapInit dbg heapAdd heapSize n
  return true

end Slots

/-! ## Where the slots lie -/

variable {dbg : Bool} {heap : MemHeap} {slot : Nat}

theorem mapHeaderLen_eq : mapHeaderLen = 256 := rfl

theorem mapSlotMax_eq (hmap : mapHeaderLen ≤ heap.mapSize) : mapSlotMax heap = (heap.mapSize - mapHeaderLen) / 2 := by
  unfold mapSlotMax
  rw [u64Sub_of_le hmap heap.mapSize_lt]

theorem slotIdx_eq (hmap : mapHeaderLen ≤ heap.mapSize) (hslot : slot < mapSlotMax heap) :
    slotIdx slot = mapHeaderLen + slot * 2 := by
  have hlt := heap.mapSize_lt
  rw [mapSlotMax_eq hmap] at hslot
  rw [mapHeaderLen_eq] at *
  unfold slotIdx
  rw [mapHeaderLen_eq, u64_of_lt (n := slot * 2) (by omega), u64_of_lt (by omega)]

theorem slot_ne_null (hslot : slot < mapSlotMax heap) : slot ≠ mapNull := by
  unfold mapSlotMax u64Sub at hslot
  unfold mapNull
  omega

theorem mapSlotIdx_run (hslot : dbg = true → slot < mapSlotMax heap) : mapSlotIdx dbg slot heap = .ok (slotIdx slot) heap := by
  unfold mapSlotIdx
  rw [Exec.bind_ok (Exec.get_run heap), Exec.bind_ok (kernelAssertD_of hslot _ heap)]
  rfl

/-- Both words of the slot are words of the map and not of its header, and they are apart from those of other slots and from
the heads of the lists. -/
def InMap (dbg : Bool) (heap : MemHeap) (slot : Nat) : Prop :=
  ∃ idx, mapSlotIdx dbg slot heap = .ok idx heap ∧ mapHeaderLen / wordLen ≤ idx ∧ idx + 1 < heap.mapSize / wordLen ∧
    (∀ slot' < mapSlotMax heap, slot' ≠ slot → ∃ idx', mapSlotIdx dbg slot' heap = .ok idx' heap ∧
      (idx + 1 < idx' ∨ idx' + 1 < idx)) ∧
    ∀ list ≤ classMax, list * 2 + 1 < idx

/-- The words of a slot lie in the map if the slot still fits behind 256 words, and for no other slot. -/
theorem slot_in_map_iff (hpos : 0 < heap.mapSize) (hpage : heap.mapSize % pageSize4K = 0) (hslot : slot < mapSlotMax heap)
    (dbg : Bool) : InMap dbg heap slot ↔ slot + 128 < heap.mapSize / 16 := by
  have hmap : mapHeaderLen ≤ heap.mapSize := by
    unfold pageSize4K at hpage
    rw [mapHeaderLen_eq]
    omega
  have hrun : ∀ slot' < mapSlotMax heap, mapSlotIdx dbg slot' heap = .ok (mapHeaderLen + slot' * 2) heap := by
    intro slot' hslot'
    rw [mapSlotIdx_run fun _ => hslot', slotIdx_eq hmap hslot']
  unfold InMap
  rw [hrun slot hslot]
  constructor
  · rintro ⟨idx, hidx, -, hlt, -⟩
    cases hidx
    rw [mapHeaderLen_eq] at hlt
    unfold wordLen at hlt
    unfold pageSize4K at hpage
    omega
  · intro hfit
    refine ⟨_, rfl, ?_, ?_, fun slot' hslot' hne => ⟨_, hrun slot' hslot', ?_⟩, fun list hlist => ?_⟩
    · exact Nat.le_add_right_of_le (Nat.div_le_self ..)
    · rw [mapHeaderLen_eq]
      unfold wordLen
      omega
    · omega
    · unfold classMax at hlist
      rw [mapHeaderLen_eq]
      omega

/-- The heap of `mem_heap_new_bootstrap` before `_map_init`. -/
def bootstrapHeap : MemHeap := ⟨0, 0, pageSize4K, bootstrapBuffSize - pageSize4K, fun _ => 0, by decide⟩

theorem slot_in_map_iff_first : InMap true bootstrapHeap 0 :=
  (slot_in_map_iff (by decide) (by decide) (by decide) true).2 (by decide)

/-- The first slot that is not in the map of the bootstrap heap, which is to have 30592. -/
theorem slot_behind_map : 3712 < mapSlotMax bootstrapHeap ∧ ¬ InMap true bootstrapHeap 3712 := by
  have hslot : 3712 < mapSlotMax bootstrapHeap := by decide
  refine ⟨hslot, ?_⟩
  rintro ⟨idx, hidx, -, hlt, -⟩
  rw [mapSlotIdx_run fun _ => hslot] at hidx
  cases hidx
  exact absurd hlt (by decide)

end HeapMap

end Cing
