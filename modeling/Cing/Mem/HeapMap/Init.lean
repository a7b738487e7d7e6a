/-
What `_map_init` leaves of a heap. The classes count pages, but the sizes that the heap is cut by are in bytes: the first block
takes in the whole heap and 2048 times its pages or more, or is of a class that has no list. The debug build does not get
there, since the slot list takes two slots.
-/
import Cing.Mem.HeapMap.Slots

namespace Cing.HeapMap

open Mem (memAlignCheck)

/-! ## The heap in class lists -/

/-- From the head to the tail, the words of a list spell the slots. -/
def Spells (heap : MemHeap) (head : Nat) (slots : List Nat) : Prop :=
  Linked.Chain mapNull (next heap) (heap.words head) slots ∧ heap.words (head + 1) = slots.getLastD mapNull

/-- The class lists hold blocks that are aligned to their sizes and cover the pages exactly once, and each slot holds a block or
is on the slot list. -/
structure Partitions (heap : MemHeap) (pages : Nat) (lists : Nat → List Nat) (free : List Nat) : Prop where
  spells : ∀ cls < classMax, Spells heap (cls * 2) (lists cls)
  spells_free : Spells heap mapSlotsIdx free
  aligned : ∀ cls < classMax, ∀ slot ∈ lists cls, 2 ^ cls ∣ page heap slot
  inside : ∀ cls < classMax, ∀ slot ∈ lists cls, page heap slot + 2 ^ cls ≤ pages
  covered : ∀ p < pages, ∃! b : Nat × Nat, b.1 < classMax ∧ b.2 ∈ lists b.1 ∧ page heap b.2 ≤ p ∧ p < page heap b.2 + 2 ^ b.1
  slots : (free ++ (List.range classMax).flatMap lists).Perm (List.range (mapSlotMax heap))

/-- What `_map_init` asks of its input, with a heap that the map is to hold. -/
structure Accepted (heap : MemHeap) (heapAdd heapSize : Nat) : Prop where
  map_aligned : memAlignCheck heap.map pageSize4K = true
  map_pages : heap.mapSize % pageSize4K = 0
  header_lt : mapHeaderLen < heap.mapSize
  add_aligned : memAlignCheck heapAdd pageSize4K = true
  pages : heapSize % pageSize4K = 0
  page_lt : pageSize4K < heapSize
  below_max : ∃ maxHeap, mapMaxHeap heap.mapSize heap = .ok maxHeap heap ∧ heapSize ≤ maxHeap

variable {dbg : Bool} {heap : MemHeap} {heapAdd heapSize size n cls slot i : Nat}

/-! ## Up to the slots -/

theorem classIdx_lt (hcls : cls < classMax) : cls * 2 < mapSlotsIdx := Nat.mul_lt_mul_of_pos_right hcls (by decide)

theorem mapSlotsIdx_lt : mapSlotsIdx < mapHeaderLen := by decide

/-- The heads of a list cleared. -/
def clearList (heap : MemHeap) (cls : Nat) : MemHeap := (heap.store (u64 (cls * 2)) mapNull).store (u64 (cls * 2) + 1) mapNull

theorem mapListIdx_run (hcls : dbg = true → cls < classMax) : mapListIdx dbg cls heap = .ok (u64 (cls * 2)) heap := by
  unfold mapListIdx
  rw [Exec.bind_ok (kernelAssertD_of hcls _ heap)]
  rfl

theorem mapInitClear_run (hcls : cls < classMax) (dbg : Bool) (heap : MemHeap) :
    mapInitClear dbg cls heap = .ok ⟨⟩ (clearList heap cls) := by
  unfold mapInitClear
  rw [Exec.bind_ok (mapListIdx_run fun _ => hcls), Exec.bind_ok (setWord_run ..), Exec.bind_ok (mapListIdx_run fun _ => hcls)]
  rfl

theorem clearList_null (heap : MemHeap) (cls : Nat) (h : heap.words i = mapNull) : (clearList heap cls).words i = mapNull := by
  unfold clearList
  rw [store_words, store_words, Function.update_apply, Function.update_apply, h, ite_self, ite_self]

theorem clearLists_null (classes : List Nat) (heap : MemHeap) (h : heap.words i = mapNull) :
    (classes.foldl clearList heap).words i = mapNull := by
  induction classes generalizing heap with
  | nil => exact h
  | cons cls classes ih => exact ih _ (clearList_null heap cls h)

theorem clearLists_head {classes : List Nat} (hcls : cls ∈ classes) (heap : MemHeap) :
    (classes.foldl clearList heap).words (u64 (cls * 2)) = mapNull := by
  induction classes generalizing heap with
  | nil => cases hcls
  | cons cls' classes ih =>
    rcases List.mem_cons.1 hcls with rfl | hcls
    · refine clearLists_null classes _ ?_
      unfold clearList
      rw [store_other (by omega), store_same]
    · exact ih hcls _

theorem clearLists_mapSize (classes : List Nat) (heap : MemHeap) : (classes.foldl clearList heap).mapSize = heap.mapSize := by
  induction classes generalizing heap with
  | nil => rfl
  | cons cls classes ih => exact ih _

/-- The heap before its slots are put on the slot list. -/
def cleared (heap : MemHeap) (heapAdd heapSize : Nat) : MemHeap :=
  (((List.range classMax).foldl clearList { heap with add0 := heapAdd, addZ := u64 (heapAdd + heapSize) }).store
    mapSlotsIdx mapNull).store (mapSlotsIdx + 1) mapNull

theorem cleared_mapSize (heap : MemHeap) (heapAdd heapSize : Nat) : (cleared heap heapAdd heapSize).mapSize = heap.mapSize := by
  unfold cleared
  rw [store_mapSize, store_mapSize, clearLists_mapSize]

theorem mapSlotMax_cleared (heap : MemHeap) (heapAdd heapSize : Nat) :
    mapSlotMax (cleared heap heapAdd heapSize) = mapSlotMax heap := by
  unfold mapSlotMax
  rw [cleared_mapSize]

theorem cleared_noSlots (heap : MemHeap) (heapAdd heapSize : Nat) : NoSlots (cleared heap heapAdd heapSize) := by
  unfold cleared
  refine ⟨?_, store_same ..⟩
  rw [store_other (by decide), store_same]

theorem cleared_head (hcls : cls < classMax) (heap : MemHeap) (heapAdd heapSize : Nat) :
    (cleared heap heapAdd heapSize).words (cls * 2) = mapNull := by
  have hidx := classIdx_lt hcls
  have hhead := clearLists_head (List.mem_range.2 hcls) { heap with add0 := heapAdd, addZ := u64 (heapAdd + heapSize) }
  have hlt : cls * 2 < 2 ^ 64 := hidx.trans (by decide)
  rw [u64_of_lt hlt] at hhead
  unfold cleared
  rw [store_other (by omega), store_other (by omega), hhead]

/-- An accepted call gets to the slots. -/
theorem mapInit_run (h : Accepted heap heapAdd heapSize) (dbg : Bool) (n : Nat) : mapInit dbg heapAdd heapSize n heap = (do
    (List.range (mapSlotMax heap)).forM (mapSlotsEnqueue dbg)
    mapInitCut dbg heapSize n 0
    return heapSize) (cleared heap heapAdd heapSize) := by
  obtain ⟨maxHeap, hmax, hle⟩ := h.below_max
  have hsize : (if heapSize < maxHeap then heapSize else maxHeap) = heapSize := by
    split
    · rfl
    · omega
  unfold mapInit
  rw [Exec.bind_ok (Exec.get_run heap), Exec.bind_ok (kernelAssert_pos h.map_aligned _ heap),
    Exec.bind_ok (kernelAssert_pos h.map_pages _ heap),
    Exec.bind_ok (kernelAssert_pos h.header_lt _ heap), Exec.bind_ok (kernelAssert_pos h.add_aligned _ heap),
    Exec.bind_ok (kernelAssert_pos h.pages _ heap), Exec.bind_ok hmax, hsize, Exec.bind_ok (kernelAssertD_pos h.page_lt dbg _ heap),
    Exec.bind_ok (Exec.modify_run _ heap),
    Exec.bind_ok (Exec.forM_ok (fun cls hcls s => mapInitClear_run (List.mem_range.1 hcls) dbg s) _),
    Exec.bind_ok (setWord_run ..), Exec.bind_ok (setWord_run ..)]
  rfl

/-- The map has room for 1920 slots and more. -/
theorem Accepted.slots (h : Accepted heap heapAdd heapSize) : ∃ m, mapSlotMax heap = m + 3 := by
  have hpages := h.map_pages
  have hlt := h.header_lt
  rw [mapHeaderLen_eq] at hlt
  unfold pageSize4K at hpages
  refine ⟨mapSlotMax heap - 3, ?_⟩
  rw [mapSlotMax_eq h.header_lt.le, mapHeaderLen_eq]
  omega

theorem Accepted.size_lt (h : Accepted heap heapAdd heapSize) : heapSize < 2 ^ 64 := by
  obtain ⟨maxHeap, hmax, hle⟩ := h.below_max
  refine hle.trans_lt ?_
  unfold mapMaxHeap at hmax
  obtain ⟨-, hmax⟩ := kernelAssert_bind hmax
  obtain ⟨-, hmax⟩ := kernelAssert_bind hmax
  cases hmax
  exact Nat.mod_lt _ (by decide)

/-! ## The debug build -/

/-- The third slot fails an assertion. -/
theorem enqueueAll_debug_stops (hempty : NoSlots heap) (hmap : mapHeaderLen ≤ heap.mapSize) {m : Nat}
    (hm : mapSlotMax heap = m + 3) : Exec.stops ((List.range (m + 3)).forM (mapSlotsEnqueue true) heap) =
      some (.assertFail "_map_slot_get_next(heap, tail_slot) == _MAP_NULL") := by
  have hone := hempty.enqueued hmap (by omega : 0 < mapSlotMax heap)
  have hmax := mapSlotMax_enqueued heap 0
  have htwo : Stuck (enqueued (enqueued heap 0) 1) 0 1 :=
    hone.enqueued (by rwa [enqueued_mapSize]) (by omega) (by omega) (by decide)
  have hmax' := mapSlotMax_enqueued (enqueued heap 0) 1
  have hrange : List.range (m + 3) = 0 :: 1 :: 2 :: (List.range m).map (3 + ·) := by
    rw [Nat.add_comm, List.range_add]
    rfl
  rw [hrange, Exec.forM_cons_ok (mapSlotsEnqueue_run fun _ => hempty.checks (by omega)),
    Exec.forM_cons_ok (mapSlotsEnqueue_run fun _ => hone.checks (by omega) (by omega)),
    Exec.forM_cons_error (htwo.enqueue_stops (by omega) (by decide) (by omega))]
  rfl

theorem mapInit_debug_stops (h : Accepted heap heapAdd heapSize) (n : Nat) : Exec.stops (mapInit true heapAdd heapSize n heap) =
    some (.assertFail "_map_slot_get_next(heap, tail_slot) == _MAP_NULL") := by
  obtain ⟨m, hm⟩ := h.slots
  have hmax := (mapSlotMax_cleared heap heapAdd heapSize).trans hm
  have hmap : mapHeaderLen ≤ (cleared heap heapAdd heapSize).mapSize := by
    rw [cleared_mapSize]
    exact h.header_lt.le
  have hstop := enqueueAll_debug_stops (cleared_noSlots heap heapAdd heapSize) hmap hmax
  rw [mapInit_run h, hm]
  exact (Exec.bind_stops hstop).1

/-! ## The release build -/

/-- The heap after `_map_list_enqueue`. -/
def listEnqueued (heap : MemHeap) (pg0 cls : Nat) : MemHeap :=
  let slot := next heap (heap.words mapSlotsIdx)
  let head := u64 (cls * 2)
  let heap := ((dequeued heap).store (slotIdx slot) pg0).store (slotIdx slot + 1) mapNull
  if heap.words head = mapNull then (heap.store head slot).store (head + 1) slot
  else heap.store (slotIdx (heap.words (head + 1)) + 1) slot

theorem mapListEnqueue_release (heap : MemHeap) (pg0 cls : Nat) :
    mapListEnqueue false pg0 cls heap = .ok () (listEnqueued heap pg0 cls) := by
  unfold mapListEnqueue listEnqueued
  rw [Exec.bind_ok (kernelAssertD_release _ _ heap), Exec.bind_ok (kernelAssertD_release _ _ heap),
    Exec.bind_ok (@mapListIdx_run false _ _ nofun), Exec.bind_ok (mapSlotsDequeue_release heap),
    Exec.bind_ok (@mapSlotSetPage_run false _ _ _ nofun nofun), Exec.bind_ok (@mapSlotSetNext_run false _ _ _ nofun nofun),
    Exec.bind_ok (Exec.get_run _)]
  dsimp only
  split
  · rfl
  · rw [Exec.bind_ok (kernelAssertD_release _ _ _), Exec.bind_ok (@mapSlotGetNext_run false _ _ nofun),
      Exec.bind_ok (kernelAssertD_release _ _ _), @mapSlotSetNext_run false _ _ _ nofun nofun]

/-- One round of the loop that cuts. -/
theorem mapInitCut_round (hsize : pageSize4K ≤ size) (h63 : size ≤ 2 ^ 63) (heap : MemHeap) (n : Nat) :
    mapInitCut false size (n + 1) 0 heap =
      mapInitCut false size n (u64 (u64 (2 ^ Nat.log2 size * pageSize4K))) (listEnqueued heap 0 (Nat.log2 size)) := by
  have hpos : 0 < size := Nat.lt_of_lt_of_le (by decide) hsize
  have hsub : u64Sub size 0 = size := u64Sub_of_le (Nat.zero_le _) (h63.trans_lt (by decide))
  have hlog : Nat.log2 size < 64 := (Nat.log2_lt (by omega)).2 (h63.trans_lt (by decide))
  rw [mapInitCut, hsub, if_pos ⟨hpos, hsize⟩, Exec.bind_ok (utilMathLog2Down_run hpos h63 le_rfl heap),
    Exec.bind_ok (kernelAssertD_release _ _ heap), Exec.bind_ok (kernelAssertD_release _ _ heap), Nat.zero_div,
    Exec.bind_ok (mapListEnqueue_release heap 0 _), Nat.mod_eq_of_lt (hlog.trans (by decide)),
    utilMath2Exp_of_lt hlog, Nat.zero_add]

/-- From class 52 on the length of a block is zero on words, and the loop never ends. -/
theorem mapInitCut_hang (h63 : size ≤ 2 ^ 63) (hlog : 52 ≤ Nat.log2 size) (heap : MemHeap) (n : Nat) :
    Exec.stops (mapInitCut false size n 0 heap) = some .hang := by
  have hsize : pageSize4K ≤ size := by
    have := Nat.log2_self_le (n := size) (by rintro rfl; simp at hlog)
    have := Nat.pow_le_pow_right (n := 2) (by decide) hlog
    unfold pageSize4K
    omega
  have hzero : u64 (2 ^ Nat.log2 size * pageSize4K) = 0 := by
    obtain ⟨k, hk⟩ := Nat.exists_eq_add_of_le hlog
    have hpow : 2 ^ Nat.log2 size * pageSize4K = 2 ^ 64 * 2 ^ k := by
      rw [hk, pow_add]
      unfold pageSize4K
      omega
    unfold u64
    rw [hpow, Nat.mul_mod_right]
  induction n generalizing heap with
  | zero => rfl
  | succ n ih =>
    rw [mapInitCut_round hsize h63, hzero]
    exact ih _

/-- Below that it ends after the first block. -/
theorem mapInitCut_once (hsize : pageSize4K ≤ size) (hlog : Nat.log2 size < 52) (heap : MemHeap) (n : Nat) :
    mapInitCut false size (n + 2) 0 heap = .ok () (listEnqueued heap 0 (Nat.log2 size)) := by
  have hlt := Nat.lt_log2_self (n := size)
  have hpow : 2 ^ (Nat.log2 size + 1) ≤ 2 ^ 52 := Nat.pow_le_pow_right (by decide) hlog
  have hcut : u64 (2 ^ Nat.log2 size * pageSize4K) = 2 ^ Nat.log2 size * pageSize4K := by
    refine u64_of_lt ?_
    unfold pageSize4K
    omega
  have hend : ¬ 2 ^ Nat.log2 size * pageSize4K < size := by
    unfold pageSize4K
    omega
  rw [mapInitCut_round hsize (by omega), hcut, hcut, mapInitCut, if_neg fun h => hend h.1]
  rfl

/-- A size above 2^63 has no logarithm. -/
theorem mapInitCut_far (h63 : 2 ^ 63 < size) (h64 : size < 2 ^ 64) (heap : MemHeap) (n : Nat) :
    mapInitCut false size n 0 heap = .error .hang heap := by
  have hsub : u64Sub size 0 = size := u64Sub_of_le (Nat.zero_le _) h64
  have hge : pageSize4K ≤ size := by
    unfold pageSize4K
    omega
  cases n with
  | zero => rfl
  | succ n => rw [mapInitCut, hsub, if_pos ⟨by omega, hge⟩, Exec.bind_error (utilMathLog2Down_hang h63 heap)]

/-- If the loop ends, there is one block. -/
theorem mapInitCut_ok {heap' : MemHeap} (hsize : pageSize4K ≤ size) (h64 : size < 2 ^ 64)
    (hrun : mapInitCut false size n 0 heap = .ok () heap') : Nat.log2 size < 52 ∧ heap' = listEnqueued heap 0 (Nat.log2 size) := by
  rcases Nat.lt_or_ge (2 ^ 63) size with h63 | h63
  · rw [mapInitCut_far h63 h64] at hrun
    cases hrun
  · rcases Nat.lt_or_ge (Nat.log2 size) 52 with hlog | hlog
    · match n with
      | 0 => cases hrun
      | 1 =>
        rw [mapInitCut_round hsize h63] at hrun
        cases hrun
      | n + 2 =>
        rw [mapInitCut_once hsize hlog] at hrun
        cases hrun
        exact ⟨hlog, rfl⟩
    · have hstop := mapInitCut_hang h63 hlog heap n
      rw [hrun] at hstop
      cases hstop

/-- All slots, put in an empty list. -/
theorem enqueueAll_range (hempty : NoSlots heap) (hmap : mapHeaderLen ≤ heap.mapSize) {m : Nat} (hm : mapSlotMax heap = m + 1) :
    Stuck ((List.range (m + 1)).foldl enqueued heap) 0 (((List.range m).map Nat.succ).getLastD mapNull) ∧
      (∀ i < mapHeaderLen, i ≠ mapSlotsIdx → i ≠ mapSlotsIdx + 1 →
        ((List.range (m + 1)).foldl enqueued heap).words i = heap.words i) ∧
      ((List.range (m + 1)).foldl enqueued heap).mapSize = heap.mapSize := by
  have hnd := List.nodup_range (n := m + 1)
  have hlt : ∀ slot ∈ List.range (m + 1), slot < mapSlotMax heap := fun slot hslot => hm ▸ List.mem_range.1 hslot
  rw [List.range_succ_eq_map] at hnd hlt ⊢
  exact hempty.enqueueAll hmap hnd hlt

theorem getLastD_range (m v : Nat) : ((List.range (m + 1)).map Nat.succ).getLastD v = m + 1 := by
  rw [List.range_succ, List.map_append]
  exact List.getLastD_concat ..

section Stuck

variable {first last : Nat}

theorem Stuck.dequeued (h : Stuck heap first last) (hlast : last < mapSlotMax heap) :
    dequeued heap = heap.store mapSlotsIdx last := by
  unfold HeapMap.dequeued
  rw [h.head, h.next]
  exact if_neg (slot_ne_null hlast)

variable (h : Stuck heap first last) (hmap : mapHeaderLen ≤ heap.mapSize) (hlast : last < mapSlotMax heap)
include h hmap hlast

/-- The first block of a class that has a list is in that list. -/
theorem Stuck.listEnqueued_head (hcls : cls < classMax) (hnull : heap.words (cls * 2) = mapNull) :
    (listEnqueued heap 0 cls).words (cls * 2) = last ∧ HeapMap.page (listEnqueued heap 0 cls) last = 0 := by
  have hidx := classIdx_lt hcls
  have hslot := header_le_slotIdx hmap hlast
  have hheader := mapSlotsIdx_lt
  have hu : u64 (cls * 2) = cls * 2 := u64_of_lt (hidx.trans (by decide))
  have hlist : listEnqueued heap 0 cls =
    ((((heap.store mapSlotsIdx last).store (slotIdx last) 0).store (slotIdx last + 1) mapNull).store
      (cls * 2) last).store (cls * 2 + 1) last := by
    unfold listEnqueued
    dsimp only
    rw [h.dequeued hlast, h.head, h.next, hu, if_pos]
    rw [store_other (by omega), store_other (by omega), store_other (by omega), hnull]
  rw [hlist]
  constructor
  · rw [store_other (by omega), store_same]
  · unfold HeapMap.page
    rw [store_other (by omega), store_other (by omega), store_other (by omega), store_same]

/-- A block of a class that has none is put in no list. -/
theorem Stuck.listEnqueued_lost (hcls : classMax ≤ cls) (hlt : cls < 64) {c : Nat} (hc : c < classMax)
    (hnull : heap.words (c * 2) = mapNull) : (listEnqueued heap 0 cls).words (c * 2) = mapNull := by
  have hidx := classIdx_lt hc
  have hge : mapSlotsIdx ≤ cls * 2 := Nat.mul_le_mul_right 2 hcls
  have hslot := header_le_slotIdx hmap hlast
  have hheader := mapSlotsIdx_lt
  have hu : u64 (cls * 2) = cls * 2 := u64_of_lt (by omega)
  -- the second word of a slot is at an odd index, and the heads are at even ones
  have hodd : ∀ slot, c * 2 ≠ slotIdx slot + 1 := fun slot => by
    unfold slotIdx u64
    rw [mapHeaderLen_eq]
    omega
  unfold listEnqueued
  dsimp only
  rw [h.dequeued hlast, h.head, h.next, hu]
  split
  · rw [store_other (by omega), store_other (by omega), store_other (by omega), store_other (by omega),
      store_other (by omega), hnull]
  · rw [store_other (hodd _), store_other (by omega), store_other (by omega), store_other (by omega), hnull]

end Stuck

/-- With the first block the class lists do not partition the heap: it is longer than the heap, or it is in none of them. -/
theorem Stuck.listEnqueued_not_partitions {first last pages : Nat} (h : Stuck heap first last) (hmap : mapHeaderLen ≤ heap.mapSize)
    (hlast : last < mapSlotMax heap) (hnull : ∀ c < classMax, heap.words (c * 2) = mapNull) (hlt : cls < 64) (hpos : 0 < pages)
    (hpages : pages < 2 ^ cls) (lists : Nat → List Nat) (free : List Nat) :
    ¬ Partitions (listEnqueued heap 0 cls) pages lists free := by
  intro hpart
  rcases Nat.lt_or_ge cls classMax with hcls | hcls
  · obtain ⟨hhead, hpage⟩ := h.listEnqueued_head hmap hlast hcls (hnull cls hcls)
    obtain ⟨hchain, -⟩ := hpart.spells cls hcls
    have hne : lists cls ≠ [] := by
      intro hnil
      rw [hnil, hhead] at hchain
      exact absurd hchain (slot_ne_null hlast)
    obtain ⟨slot, slots, hslots⟩ := List.exists_cons_of_ne_nil hne
    rw [hslots, hhead] at hchain
    obtain rfl := hchain.1
    have hinside := hpart.inside cls hcls last (hslots ▸ List.mem_cons_self)
    omega
  · obtain ⟨⟨c, slot⟩, ⟨hc, hslot, -⟩, -⟩ := hpart.covered 0 hpos
    obtain ⟨hchain, -⟩ := hpart.spells c hc
    rw [h.listEnqueued_lost hmap hlast hcls hlt hc (hnull c hc)] at hchain
    rw [hchain.eq_nil_iff.1 rfl] at hslot
    cases hslot

/-- Where the release build returns, the slots hang behind the first one and the heap is one block. -/
theorem mapInit_release_ok {heap' : MemHeap} (h : Accepted heap heapAdd heapSize)
    (hrun : mapInit false heapAdd heapSize n heap = .ok size heap') :
    size = heapSize ∧ Nat.log2 heapSize < 52 ∧ ∃ last after, heap' = listEnqueued after 0 (Nat.log2 heapSize) ∧ Stuck after 0 last ∧
      mapHeaderLen ≤ after.mapSize ∧ last < mapSlotMax after ∧ ∀ c < classMax, after.words (c * 2) = mapNull := by
  obtain ⟨m, hm⟩ := h.slots
  have hsize := cleared_mapSize heap heapAdd heapSize
  have hmax := (mapSlotMax_cleared heap heapAdd heapSize).trans hm
  have hmap : mapHeaderLen ≤ (cleared heap heapAdd heapSize).mapSize := by
    rw [hsize]
    exact h.header_lt.le
  obtain ⟨hstuck, hwords, hsame⟩ := enqueueAll_range (cleared_noSlots heap heapAdd heapSize) hmap hmax
  rw [getLastD_range] at hstuck
  rw [mapInit_run h, hm, Exec.bind_ok (Exec.forM_ok (fun slot _ s => @mapSlotsEnqueue_run false s slot nofun) _)] at hrun
  generalize (List.range (m + 3)).foldl enqueued (cleared heap heapAdd heapSize) = after at hstuck hwords hsame hrun
  obtain ⟨_, t, hcut, hpure⟩ := Exec.bind_eq_ok.1 hrun
  cases hpure
  obtain ⟨hlog, rfl⟩ := mapInitCut_ok h.page_lt.le h.size_lt hcut
  refine ⟨rfl, hlog, m + 1 + 1, after, rfl, hstuck, hsame ▸ hmap, ?_, fun c hc => ?_⟩
  · unfold mapSlotMax at hmax ⊢
    rw [hsame, hmax]
    omega
  · have hidx := classIdx_lt hc
    have hheader := mapSlotsIdx_lt
    rw [hwords _ (by omega) (by omega) (by omega), cleared_head hc]

/-- `_map_init` never partitions a heap: the debug build stops, and the release build runs on for ever or leaves no partition. -/
theorem map_init_never_partitions (h : Accepted heap heapAdd heapSize) (dbg : Bool) : ¬ ∃ n size heap' lists free,
    mapInit dbg heapAdd heapSize n heap = .ok size heap' ∧ Partitions heap' (size / pageSize4K) lists free := by
  rintro ⟨n, size, heap', lists, free, hrun, hpart⟩
  cases dbg with
  | true =>
    have hstop := mapInit_debug_stops h n
    rw [hrun] at hstop
    cases hstop
  | false =>
    obtain ⟨rfl, hlog, last, after, rfl, hstuck, hmap, hlast, hnull⟩ := mapInit_release_ok h hrun
    have hpos : 0 < size / pageSize4K := Nat.div_pos h.page_lt.le (by decide)
    have hpages : size / pageSize4K < 2 ^ Nat.log2 size := by
      have hlt := Nat.lt_log2_self (n := size)
      unfold pageSize4K
      omega
    exact hstuck.listEnqueued_not_partitions hmap hlast hnull (hlog.trans (by decide)) hpos hpages lists free hpart

theorem bootstrapHeap_accepted : Accepted bootstrapHeap (2 ^ 20) 8192 := by
  have hmax : mapMaxHeap bootstrapHeap.mapSize bootstrapHeap = .ok 7831552 bootstrapHeap := by
    unfold mapMaxHeap
    rw [Exec.bind_ok (kernelAssert_pos (by decide) _ _), Exec.bind_ok (kernelAssert_pos (by decide) _ _)]
    rfl
  exact ⟨by decide, by decide, by decide, by decide, by decide, by decide, 7831552, hmax, by decide⟩

theorem map_init_never_partitions_8K : ¬ ∃ n size heap' lists free,
    mapInit false (2 ^ 20) 8192 n bootstrapHeap = .ok size heap' ∧ Partitions heap' (size / pageSize4K) lists free :=
  map_init_never_partitions bootstrapHeap_accepted false

/-- The debug build does not get a heap of two pages ready. -/
theorem map_init_incomplete : Accepted bootstrapHeap (2 ^ 20) 8192 ∧
    ¬ ∃ n size heap', mapInit true (2 ^ 20) 8192 n bootstrapHeap = .ok size heap' := by
  refine ⟨bootstrapHeap_accepted, ?_⟩
  rintro ⟨n, size, heap', hrun⟩
  have hstop := mapInit_debug_stops bootstrapHeap_accepted n
  rw [hrun] at hstop
  cases hstop

/-- In the debug build `mem_heap_new_bootstrap` returns no heap. -/
theorem memHeapNewBootstrap_debug_stops {bootStage bootstrapBuff : Nat} (hstage : bootStage < Mem.memBootstrapStageFinish)
    (h : Accepted (bootstrapStart heap bootstrapBuff) heapAdd heapSize) (n : Nat) :
    Exec.stops (memHeapNewBootstrap true bootStage bootstrapBuff heapAdd heapSize n heap) =
      some (.assertFail "_map_slot_get_next(heap, tail_slot) == _MAP_NULL") := by
  have hpages : ¬ heapSize % pageSize4K ≠ 0 := fun hne => hne h.pages
  have halign : ¬ ¬ memAlignCheck heapAdd pageSize4K = true := fun hne => hne h.add_aligned
  unfold memHeapNewBootstrap
  rw [Exec.bind_ok (kernelAssert_pos hstage _ heap), Exec.bind_ok (kernelAssert_pos (by decide) _ heap),
    if_neg halign, if_neg hpages, Exec.bind_ok (Exec.modify_run _ heap)]
  exact (Exec.bind_stops (mapInit_debug_stops h n)).1

end Cing.HeapMap
