/-
The slot list of a heap map as a queue. `_map_slots_enqueue` leaves the word of the tail as it is, so that it hangs each slot
behind the first one, and `_map_slots_dequeue` returns the slot behind the one that it takes off.
-/
import Cing.Mem.HeapMap.Model

namespace Cing.HeapMap

/-! ## The two builds -/

section Builds

variable {dbg : Bool}

theorem kernelAssertD_follows {σ : Type} {s : σ} {c : Prop} [Decidable c] {expr : String} :
    Exec.Follows id s (kernelAssertD dbg c expr) (kernelAssertD false c expr) := by
  intro a s' hrun
  cases dbg with
  | false => exact ⟨s', hrun, rfl⟩
  | true =>
    obtain ⟨-, rfl⟩ := kernelAssertD_ok hrun
    exact ⟨_, rfl, rfl⟩

variable {heap : MemHeap}

theorem setWord_follows {i v : Nat} : Exec.Follows id heap (setWord i v) (setWord i v) := .update rfl

theorem mapSlotIdx_follows {slot : Nat} : Exec.Follows id heap (mapSlotIdx dbg slot) (mapSlotIdx false slot) :=
  .get <| .bind kernelAssertD_follows fun _ heap => .pure heap _

theorem mapSlotSetSlot_follows {slot setSlot : Nat} :
    Exec.Follows id heap (mapSlotSetSlot dbg slot setSlot) (mapSlotSetSlot false slot setSlot) :=
  .get <| .bind kernelAssertD_follows fun _ _ => .bind kernelAssertD_follows fun _ _ =>
    .bind mapSlotIdx_follows fun _ _ => .bind setWord_follows fun _ _ =>
    .bind mapSlotIdx_follows fun _ _ => setWord_follows

theorem mapSlotSetPage_follows {slot page : Nat} :
    Exec.Follows id heap (mapSlotSetPage dbg slot page) (mapSlotSetPage false slot page) :=
  .get <| .bind kernelAssertD_follows fun _ _ => .bind kernelAssertD_follows fun _ _ =>
    .bind mapSlotIdx_follows fun _ _ => setWord_follows

theorem mapSlotSetNext_follows {slot next : Nat} :
    Exec.Follows id heap (mapSlotSetNext dbg slot next) (mapSlotSetNext false slot next) :=
  .get <| .bind kernelAssertD_follows fun _ _ => .bind kernelAssertD_follows fun _ _ =>
    .bind mapSlotIdx_follows fun _ _ => setWord_follows

theorem mapSlotGetPage_follows {slot : Nat} : Exec.Follows id heap (mapSlotGetPage dbg slot) (mapSlotGetPage false slot) :=
  .get <| .bind kernelAssertD_follows fun _ _ => .bind mapSlotIdx_follows fun _ heap => .pure heap _

theorem mapSlotGetNext_follows {slot : Nat} : Exec.Follows id heap (mapSlotGetNext dbg slot) (mapSlotGetNext false slot) :=
  .get <| .bind kernelAssertD_follows fun _ _ => .bind mapSlotIdx_follows fun _ heap => .pure heap _

theorem mapSlotsDequeue_follows : Exec.Follows id heap (mapSlotsDequeue dbg) (mapSlotsDequeue false) := by
  refine .get <| .bind kernelAssertD_follows fun _ _ => .bind kernelAssertD_follows fun _ _ =>
    .bind kernelAssertD_follows fun _ _ => .bind mapSlotGetNext_follows fun next _ =>
    .bind mapSlotGetPage_follows fun _ _ => .bind kernelAssertD_follows fun _ _ => .ite ?_ ?_
  · exact .bind kernelAssertD_follows fun _ _ => .bind setWord_follows fun _ _ =>
      .bind setWord_follows fun _ heap => .pure heap next
  · exact .bind kernelAssertD_follows fun _ _ => .bind setWord_follows fun _ heap => .pure heap next

/-- A call that returns in the debug build does the same in the release build. -/
theorem mapSlotsEnqueue_follows {slot : Nat} : Exec.Follows id heap (mapSlotsEnqueue dbg slot) (mapSlotsEnqueue false slot) := by
  refine .get <| .bind kernelAssertD_follows fun _ _ => .ite ?_ ?_
  · exact .bind kernelAssertD_follows fun _ _ => .bind setWord_follows fun _ _ => .bind setWord_follows fun _ _ =>
      .bind mapSlotSetPage_follows fun _ _ => mapSlotSetNext_follows
  · exact .bind kernelAssertD_follows fun _ _ => .bind kernelAssertD_follows fun _ _ =>
      .bind mapSlotGetNext_follows fun _ _ => .bind kernelAssertD_follows fun _ _ =>
      .bind mapSlotGetPage_follows fun _ _ => .bind kernelAssertD_follows fun _ _ =>
      .bind mapSlotSetPage_follows fun _ _ => .bind mapSlotSetNext_follows fun _ _ => mapSlotSetSlot_follows

end Builds

/-! ## What the calls do -/

/-- The first word of a slot. -/
def page (heap : MemHeap) (slot : Nat) : Nat := heap.words (slotIdx slot)

/-- The second word of a slot. -/
def next (heap : MemHeap) (slot : Nat) : Nat := heap.words (slotIdx slot + 1)

/-- The heap with both words of a slot set. -/
def setPair (heap : MemHeap) (slot v w : Nat) : MemHeap := (heap.store (slotIdx slot) v).store (slotIdx slot + 1) w

variable {dbg : Bool} {heap : MemHeap} {slot v : Nat}

@[simp] theorem store_mapSize (heap : MemHeap) (i v : Nat) : (heap.store i v).mapSize = heap.mapSize := rfl

theorem store_words (heap : MemHeap) (i v : Nat) : (heap.store i v).words = Function.update heap.words i v := rfl

theorem store_same (heap : MemHeap) (i v : Nat) : (heap.store i v).words i = v := Function.update_self ..

theorem store_other {i j : Nat} (h : j ≠ i) (v : Nat) : (heap.store i v).words j = heap.words j := Function.update_of_ne h ..

theorem setWord_run (i v : Nat) (heap : MemHeap) : setWord i v heap = .ok ⟨⟩ (heap.store i v) := rfl

theorem mapSlotSetSlot_run (hslot : dbg = true → slot < mapSlotMax heap) (hv : dbg = true → v = mapNull ∨ v < mapSlotMax heap) :
    mapSlotSetSlot dbg slot v heap = .ok () (setPair heap slot v v) := by
  unfold mapSlotSetSlot
  rw [Exec.bind_ok (Exec.get_run heap), Exec.bind_ok (kernelAssertD_of hslot _ heap), Exec.bind_ok (kernelAssertD_of hv _ heap),
    Exec.bind_ok (mapSlotIdx_run hslot), Exec.bind_ok (setWord_run ..), Exec.bind_ok (mapSlotIdx_run (by exact hslot))]
  rfl

theorem mapSlotSetPage_run (hslot : dbg = true → slot < mapSlotMax heap) (hv : dbg = true → v = mapNull ∨ v < pageMax heap) :
    mapSlotSetPage dbg slot v heap = .ok () (heap.store (slotIdx slot) v) := by
  unfold mapSlotSetPage
  rw [Exec.bind_ok (Exec.get_run heap), Exec.bind_ok (kernelAssertD_of hslot _ heap), Exec.bind_ok (kernelAssertD_of hv _ heap),
    Exec.bind_ok (mapSlotIdx_run hslot)]
  rfl

theorem mapSlotSetNext_run (hslot : dbg = true → slot < mapSlotMax heap) (hv : dbg = true → v = mapNull ∨ v < mapSlotMax heap) :
    mapSlotSetNext dbg slot v heap = .ok () (heap.store (slotIdx slot + 1) v) := by
  unfold mapSlotSetNext
  rw [Exec.bind_ok (Exec.get_run heap), Exec.bind_ok (kernelAssertD_of hslot _ heap), Exec.bind_ok (kernelAssertD_of hv _ heap),
    Exec.bind_ok (mapSlotIdx_run hslot)]
  rfl

theorem mapSlotGetPage_run (hslot : dbg = true → slot < mapSlotMax heap) :
    mapSlotGetPage dbg slot heap = .ok (page heap slot) heap := by
  unfold mapSlotGetPage
  rw [Exec.bind_ok (Exec.get_run heap), Exec.bind_ok (kernelAssertD_of hslot _ heap), Exec.bind_ok (mapSlotIdx_run hslot)]
  rfl

theorem mapSlotGetNext_run (hslot : dbg = true → slot < mapSlotMax heap) :
    mapSlotGetNext dbg slot heap = .ok (next heap slot) heap := by
  unfold mapSlotGetNext
  rw [Exec.bind_ok (Exec.get_run heap), Exec.bind_ok (kernelAssertD_of hslot _ heap), Exec.bind_ok (mapSlotIdx_run hslot)]
  rfl

/-- The heap after `_map_slots_dequeue`. -/
def dequeued (heap : MemHeap) : MemHeap :=
  let behind := next heap (heap.words mapSlotsIdx)
  if behind = mapNull then (heap.store mapSlotsIdx mapNull).store (mapSlotsIdx + 1) mapNull else heap.store mapSlotsIdx behind

/-- The release build returns the slot behind the head. -/
theorem mapSlotsDequeue_release (heap : MemHeap) :
    mapSlotsDequeue false heap = .ok (next heap (heap.words mapSlotsIdx)) (dequeued heap) := by
  unfold mapSlotsDequeue dequeued
  rw [Exec.bind_ok (Exec.get_run heap), Exec.bind_ok (kernelAssertD_release _ _ heap),
    Exec.bind_ok (kernelAssertD_release _ _ heap),
    Exec.bind_ok (kernelAssertD_release _ _ heap), Exec.bind_ok (@mapSlotGetNext_run false _ _ nofun),
    Exec.bind_ok (@mapSlotGetPage_run false _ _ nofun),
    Exec.bind_ok (kernelAssertD_release _ _ heap)]
  dsimp only
  split
  · rfl
  · rfl

/-- The heap after `_map_slots_enqueue`. -/
def enqueued (heap : MemHeap) (slot : Nat) : MemHeap :=
  if heap.words mapSlotsIdx = mapNull then setPair ((heap.store mapSlotsIdx slot).store (mapSlotsIdx + 1) slot) slot mapNull mapNull
  else setPair (setPair heap slot mapNull mapNull) (heap.words (mapSlotsIdx + 1)) slot slot

/-- What the debug build checks in `_map_slots_enqueue`. -/
structure EnqueueChecks (heap : MemHeap) (slot : Nat) : Prop where
  slot_lt : slot < mapSlotMax heap
  empty : heap.words mapSlotsIdx = mapNull → heap.words (mapSlotsIdx + 1) = mapNull
  tail : heap.words mapSlotsIdx ≠ mapNull → heap.words (mapSlotsIdx + 1) < mapSlotMax heap ∧
    next heap (heap.words (mapSlotsIdx + 1)) = mapNull ∧ page heap (heap.words (mapSlotsIdx + 1)) = mapNull

theorem mapSlotsEnqueue_run (h : dbg = true → EnqueueChecks heap slot) :
    mapSlotsEnqueue dbg slot heap = .ok () (enqueued heap slot) := by
  have hslot : dbg = true → slot < mapSlotMax heap := fun hd => (h hd).slot_lt
  unfold mapSlotsEnqueue enqueued
  rw [Exec.bind_ok (Exec.get_run heap), Exec.bind_ok (kernelAssertD_of hslot _ heap)]
  dsimp only
  by_cases hnull : heap.words mapSlotsIdx = mapNull
  · rw [if_pos hnull, if_pos hnull, Exec.bind_ok (kernelAssertD_of (fun hd => (h hd).empty hnull) _ heap),
      Exec.bind_ok (setWord_run ..),
      Exec.bind_ok (setWord_run ..), Exec.bind_ok (mapSlotSetPage_run (by exact hslot) fun _ => .inl rfl),
      mapSlotSetNext_run (by exact hslot) fun _ => .inl rfl]
    rfl
  · have htail : dbg = true → heap.words (mapSlotsIdx + 1) < mapSlotMax heap := fun hd => ((h hd).tail hnull).1
    rw [if_neg hnull, if_neg hnull, Exec.bind_ok (kernelAssertD_of (fun hd => slot_ne_null (htail hd)) _ heap),
      Exec.bind_ok (kernelAssertD_of htail _ heap), Exec.bind_ok (mapSlotGetNext_run htail),
      Exec.bind_ok (kernelAssertD_of (fun hd => ((h hd).tail hnull).2.1) _ heap), Exec.bind_ok (mapSlotGetPage_run htail),
      Exec.bind_ok (kernelAssertD_of (fun hd => ((h hd).tail hnull).2.2) _ heap),
      Exec.bind_ok (mapSlotSetPage_run hslot fun _ => .inl rfl),
      Exec.bind_ok (mapSlotSetNext_run (by exact hslot) fun _ => .inl rfl),
      mapSlotSetSlot_run (by exact htail) (by exact fun hd => .inr (hslot hd))]
    rfl

/-- In either build, a call that returns leaves the same heap. -/
theorem mapSlotsEnqueue_ok {heap' : MemHeap} (h : mapSlotsEnqueue dbg slot heap = .ok () heap') : heap' = enqueued heap slot := by
  obtain ⟨t, hrun, rfl⟩ := mapSlotsEnqueue_follows _ _ h
  rw [@mapSlotsEnqueue_run false _ _ nofun] at hrun
  cases hrun
  rfl

theorem mapSlotsDequeue_ok {heap' : MemHeap} {x : Nat} (h : mapSlotsDequeue dbg heap = .ok x heap') :
    x = next heap (heap.words mapSlotsIdx) ∧ heap' = dequeued heap := by
  obtain ⟨t, hrun, rfl⟩ := mapSlotsDequeue_follows _ _ h
  rw [mapSlotsDequeue_release] at hrun
  cases hrun
  exact ⟨rfl, rfl⟩

/-! ## What the calls leave alone -/

section Frame

variable {slot' w i : Nat}

@[simp] theorem mapSlotMax_setPair (heap : MemHeap) (slot v w : Nat) : mapSlotMax (setPair heap slot v w) = mapSlotMax heap := rfl

@[simp] theorem page_setPair (heap : MemHeap) (slot v w : Nat) : page (setPair heap slot v w) slot = v := by
  unfold page setPair
  rw [store_other (by omega), store_same]

@[simp] theorem next_setPair (heap : MemHeap) (slot v w : Nat) : next (setPair heap slot v w) slot = w := store_same ..

theorem setPair_words (hi : i ≠ slotIdx slot) (hi' : i ≠ slotIdx slot + 1) (v w : Nat) :
    (setPair heap slot v w).words i = heap.words i := by
  unfold setPair
  rw [store_other hi', store_other hi]

variable (hmap : mapHeaderLen ≤ heap.mapSize)
include hmap

theorem header_le_slotIdx (hslot : slot < mapSlotMax heap) : mapHeaderLen ≤ slotIdx slot := by
  rw [slotIdx_eq hmap hslot]
  omega

theorem setPair_header (hslot : slot < mapSlotMax heap) (hi : i < mapHeaderLen) (v w : Nat) :
    (setPair heap slot v w).words i = heap.words i := by
  have := header_le_slotIdx hmap hslot
  exact setPair_words (by omega) (by omega) v w

theorem next_setPair_other (hslot : slot < mapSlotMax heap) (hslot' : slot' < mapSlotMax heap) (hne : slot' ≠ slot) (v w : Nat) :
    next (setPair heap slot v w) slot' = next heap slot' := by
  unfold next
  rw [setPair_words] <;> rw [slotIdx_eq hmap hslot, slotIdx_eq hmap hslot'] <;> omega

end Frame

/-! ## The list after calls of enqueue -/

/-- Nothing is in the slot list. -/
structure NoSlots (heap : MemHeap) : Prop where
  head : heap.words mapSlotsIdx = mapNull
  tail : heap.words (mapSlotsIdx + 1) = mapNull

/-- What enqueue makes of the slot list: head and tail are the first slot, and only the last one hangs behind it. -/
structure Stuck (heap : MemHeap) (first last : Nat) : Prop where
  head : heap.words mapSlotsIdx = first
  tail : heap.words (mapSlotsIdx + 1) = first
  page : page heap first = last
  next : next heap first = last
  next_last : last ≠ mapNull → HeapMap.next heap last = mapNull

@[simp] theorem enqueued_mapSize (heap : MemHeap) (slot : Nat) : (enqueued heap slot).mapSize = heap.mapSize := by
  unfold enqueued
  split
  · rfl
  · rfl

@[simp] theorem mapSlotMax_enqueued (heap : MemHeap) (slot : Nat) : mapSlotMax (enqueued heap slot) = mapSlotMax heap := by
  unfold mapSlotMax
  rw [enqueued_mapSize]

section Stuck

variable {first last i : Nat} (hmap : mapHeaderLen ≤ heap.mapSize)
include hmap

theorem NoSlots.enqueued (h : NoSlots heap) (hslot : slot < mapSlotMax heap) : Stuck (enqueued heap slot) slot mapNull := by
  unfold HeapMap.enqueued
  rw [if_pos h.head]
  refine ⟨?_, ?_, page_setPair .., next_setPair .., fun hne => absurd rfl hne⟩
  · rw [setPair_header (by exact hmap) (by exact hslot) (by decide), store_other (by decide), store_same]
  · rw [setPair_header (by exact hmap) (by exact hslot) (by decide), store_same]

theorem NoSlots.enqueued_words (h : NoSlots heap) (hslot : slot < mapSlotMax heap) (hi : i < mapHeaderLen) (hhead : i ≠ mapSlotsIdx)
    (htail : i ≠ mapSlotsIdx + 1) : (HeapMap.enqueued heap slot).words i = heap.words i := by
  unfold HeapMap.enqueued
  rw [if_pos h.head, setPair_header (by exact hmap) (by exact hslot) hi, store_other htail, store_other hhead]

omit hmap in
theorem Stuck.enqueued_eq (h : Stuck heap first last) (hfirst : first < mapSlotMax heap) (slot : Nat) :
    HeapMap.enqueued heap slot = setPair (setPair heap slot mapNull mapNull) first slot slot := by
  have hne : heap.words mapSlotsIdx ≠ mapNull := by
    rw [h.head]
    exact slot_ne_null hfirst
  unfold HeapMap.enqueued
  rw [if_neg hne, h.tail]

variable (h : Stuck heap first last) (hfirst : first < mapSlotMax heap) (hslot : slot < mapSlotMax heap)
include h hfirst hslot

theorem Stuck.enqueued_words (hi : i < mapHeaderLen) : (HeapMap.enqueued heap slot).words i = heap.words i := by
  rw [h.enqueued_eq hfirst, setPair_header (by exact hmap) (by exact hfirst) hi, setPair_header hmap hslot hi]

/-- The slot that comes takes the place of the one that came before it. -/
theorem Stuck.enqueued (hne : slot ≠ first) : Stuck (HeapMap.enqueued heap slot) first slot := by
  refine ⟨?_, ?_, ?_, ?_, fun _ => ?_⟩
  · rw [h.enqueued_words hmap hfirst hslot (by decide), h.head]
  · rw [h.enqueued_words hmap hfirst hslot (by decide), h.tail]
  · rw [h.enqueued_eq hfirst, page_setPair]
  · rw [h.enqueued_eq hfirst, next_setPair]
  · rw [h.enqueued_eq hfirst, next_setPair_other (by exact hmap) (by exact hfirst) (by exact hslot) hne, next_setPair]

end Stuck

/-- Slots that are put in behind the first one. -/
theorem Stuck.enqueueAll {slots : List Nat} {first last : Nat} (hmap : mapHeaderLen ≤ heap.mapSize) (h : Stuck heap first last)
    (hfirst : first < mapSlotMax heap) (hslots : ∀ slot ∈ slots, slot < mapSlotMax heap ∧ slot ≠ first) :
    Stuck (slots.foldl HeapMap.enqueued heap) first (slots.getLastD last) ∧
      (∀ i < mapHeaderLen, (slots.foldl HeapMap.enqueued heap).words i = heap.words i) ∧
      (slots.foldl HeapMap.enqueued heap).mapSize = heap.mapSize := by
  induction slots generalizing heap last with
  | nil => exact ⟨h, fun _ _ => rfl, rfl⟩
  | cons slot slots ih =>
    obtain ⟨hslot, hne⟩ := hslots slot List.mem_cons_self
    have hsize := enqueued_mapSize heap slot
    have hmax := mapSlotMax_enqueued heap slot
    have hrest : ∀ slot' ∈ slots, slot' < mapSlotMax (HeapMap.enqueued heap slot) ∧ slot' ≠ first := by
      rw [hmax]
      exact fun slot' hmem => hslots slot' (List.mem_cons_of_mem _ hmem)
    obtain ⟨hstuck, hwords, hend⟩ := ih (by rwa [hsize]) (h.enqueued hmap hfirst hslot hne) (by rwa [hmax]) hrest
    rw [List.getLastD_cons, List.foldl_cons]
    exact ⟨hstuck, fun i hi => (hwords i hi).trans (h.enqueued_words hmap hfirst hslot hi), hend.trans hsize⟩

/-- Slots that are put in an empty list. -/
theorem NoSlots.enqueueAll {first : Nat} {slots : List Nat} (hmap : mapHeaderLen ≤ heap.mapSize) (h : NoSlots heap)
    (hnd : (first :: slots).Nodup) (hslots : ∀ slot ∈ first :: slots, slot < mapSlotMax heap) :
    Stuck ((first :: slots).foldl HeapMap.enqueued heap) first (slots.getLastD mapNull) ∧
      (∀ i < mapHeaderLen, i ≠ mapSlotsIdx → i ≠ mapSlotsIdx + 1 →
        ((first :: slots).foldl HeapMap.enqueued heap).words i = heap.words i) ∧
      ((first :: slots).foldl HeapMap.enqueued heap).mapSize = heap.mapSize := by
  have hfirst := hslots first List.mem_cons_self
  have hsize := enqueued_mapSize heap first
  have hmax := mapSlotMax_enqueued heap first
  obtain ⟨hnot, -⟩ := List.nodup_cons.1 hnd
  have hrest : ∀ slot ∈ slots, slot < mapSlotMax (HeapMap.enqueued heap first) ∧ slot ≠ first := by
    rw [hmax]
    exact fun slot hmem => ⟨hslots slot (List.mem_cons_of_mem _ hmem), fun heq => hnot (heq ▸ hmem)⟩
  obtain ⟨hstuck, hwords, hend⟩ := (h.enqueued hmap hfirst).enqueueAll (by rwa [hsize]) (by rwa [hmax]) hrest
  rw [List.foldl_cons]
  exact ⟨hstuck, fun i hi hhead htail => (hwords i hi).trans (h.enqueued_words hmap hfirst hi hhead htail), hend.trans hsize⟩

/-! ## Any calls -/

/-- A call on the slot list. -/
inductive SlotCall where
  | enqueue (slot : Nat)
  | dequeue

/-- Calls one after another. The result is what the dequeues return. -/
def slotCalls (dbg : Bool) : List SlotCall → HeapMapM (List Nat)
  | [] => return []
  | .enqueue slot :: calls => do
    mapSlotsEnqueue dbg slot
    slotCalls dbg calls
  | .dequeue :: calls => do
    let slot ← mapSlotsDequeue dbg
    return slot :: (← slotCalls dbg calls)

/-- The calls on a queue: what is in it after them, and what the dequeues return. -/
def fifo : List Nat → List SlotCall → List Nat × List Nat
  | queue, [] => (queue, [])
  | queue, .enqueue slot :: calls => fifo (queue ++ [slot]) calls
  | queue, .dequeue :: calls => ((fifo queue.tail calls).1, queue.headD mapNull :: (fifo queue.tail calls).2)

/-- Each call puts in a slot below `max` that is not queued, or takes one out where there is one. -/
def Allowed (max : Nat) : List Nat → List SlotCall → Prop
  | _, [] => True
  | queue, .enqueue slot :: calls => slot < max ∧ slot ∉ queue ∧ Allowed max (queue ++ [slot]) calls
  | queue, .dequeue :: calls => queue ≠ [] ∧ Allowed max queue.tail calls

/-- The map is an array of `len` words in the address space, which is long enough for the indices of all slots. -/
def LongEnough (heap : MemHeap) (len : Nat) : Prop :=
  wordLen * len ≤ 2 ^ 64 ∧ ∀ slot < mapSlotMax heap, slotIdx slot + 1 < len

/-- The calls return, each dequeue gives the slot that has been queued longest, and the words of the list spell the slots that
are still queued. -/
def IsFifo (dbg : Bool) (heap : MemHeap) (calls : List SlotCall) : Prop :=
  ∃ heap', slotCalls dbg calls heap = .ok (fifo [] calls).2 heap' ∧
    Linked.Chain mapNull (next heap') (heap'.words mapSlotsIdx) (fifo [] calls).1

section Calls

variable {max len : Nat} {queue slots outs : List Nat} {calls : List SlotCall} {heap' : MemHeap}

theorem slotCalls_split (calls : List SlotCall) : (∃ slots : List Nat, calls = slots.map .enqueue) ∨
    ∃ (slots : List Nat) (rest : List SlotCall), calls = slots.map .enqueue ++ .dequeue :: rest := by
  induction calls with
  | nil => exact .inl ⟨[], rfl⟩
  | cons call calls ih =>
    cases call with
    | dequeue => exact .inr ⟨[], calls, rfl⟩
    | enqueue slot =>
      rcases ih with ⟨slots, rfl⟩ | ⟨slots, rest, rfl⟩
      · exact .inl ⟨slot :: slots, rfl⟩
      · exact .inr ⟨slot :: slots, rest, rfl⟩

theorem fifo_enqueues : fifo queue (slots.map .enqueue ++ calls) = fifo (queue ++ slots) calls := by
  induction slots generalizing queue with
  | nil => rw [List.append_nil]; rfl
  | cons slot slots ih => exact ih.trans (by rw [List.append_assoc]; rfl)

theorem allowed_enqueues (hcalls : Allowed max queue (slots.map .enqueue ++ calls)) (hnd : queue.Nodup) :
    (queue ++ slots).Nodup ∧ (∀ slot ∈ slots, slot < max) ∧ Allowed max (queue ++ slots) calls := by
  induction slots generalizing queue with
  | nil => exact ⟨by simpa using hnd, nofun, by simpa using hcalls⟩
  | cons slot slots ih =>
    obtain ⟨hslot, hnot, hcalls⟩ := hcalls
    have hnd' : (queue ++ [slot]).Nodup := by
      rw [List.nodup_append_comm]
      exact List.nodup_cons.2 ⟨hnot, hnd⟩
    have h := ih hcalls hnd'
    rw [List.append_assoc, List.singleton_append] at h
    exact ⟨h.1, List.forall_mem_cons.2 ⟨hslot, h.2.1⟩, h.2.2⟩

/-- The calls before the first dequeue, in either build. -/
theorem slotCalls_enqueues (h : slotCalls dbg (slots.map .enqueue ++ calls) heap = .ok outs heap') :
    slotCalls dbg calls (slots.foldl enqueued heap) = .ok outs heap' := by
  induction slots generalizing heap with
  | nil => exact h
  | cons slot slots ih =>
    obtain ⟨_, t, hrun, hrest⟩ := Exec.bind_eq_ok.1 h
    obtain rfl := mapSlotsEnqueue_ok hrun
    exact ih hrest

theorem LongEnough.header_le (h : LongEnough heap len) : mapHeaderLen ≤ heap.mapSize := by
  obtain ⟨hlen, hidx⟩ := h
  by_contra hlt
  -- the number of slots wraps, and some of them lie behind the address space
  have hmax : 2 ^ 62 < mapSlotMax heap := by
    unfold mapSlotMax
    rw [u64Sub_of_lt (not_le.1 hlt), mapHeaderLen_eq]
    omega
  have hfar := hidx (2 ^ 62) hmax
  have heq : slotIdx (2 ^ 62) = 2 ^ 63 + mapHeaderLen := by decide
  rw [heq] at hfar
  unfold wordLen at hlen
  omega

theorem NoSlots.checks (h : NoSlots heap) (hslot : slot < mapSlotMax heap) : EnqueueChecks heap slot :=
  ⟨hslot, fun _ => h.tail, fun hne => absurd h.head hne⟩

/-- With one slot in the list, the debug build takes a second one. -/
theorem Stuck.checks {first : Nat} (h : Stuck heap first mapNull) (hfirst : first < mapSlotMax heap)
    (hslot : slot < mapSlotMax heap) : EnqueueChecks heap slot := by
  refine ⟨hslot, fun hnull => ?_, fun _ => ?_⟩
  · rw [h.tail, ← h.head, hnull]
  · rw [h.tail]
    exact ⟨hfirst, h.next, h.page⟩

/-- With two, it takes no third one. -/
theorem Stuck.enqueue_stops {first last : Nat} (h : Stuck heap first last) (hfirst : first < mapSlotMax heap)
    (hlast : last ≠ mapNull) (hslot : slot < mapSlotMax heap) :
    mapSlotsEnqueue true slot heap = .error (.assertFail "_map_slot_get_next(heap, tail_slot) == _MAP_NULL") heap := by
  have hnull := slot_ne_null hfirst
  unfold mapSlotsEnqueue
  rw [Exec.bind_ok (Exec.get_run heap), Exec.bind_ok (kernelAssertD_pos hslot true _ heap)]
  dsimp only
  rw [h.head, h.tail, if_neg hnull, Exec.bind_ok (kernelAssertD_pos hnull true _ heap),
    Exec.bind_ok (kernelAssertD_pos hfirst true _ heap),
    Exec.bind_ok (mapSlotGetNext_run fun _ => hfirst), h.next, Exec.bind_error (kernelAssertD_neg hlast _ heap)]

theorem getLastD_ne {first v : Nat} {slots : List Nat} (hnot : first ∉ slots) (hv : v ≠ first) : slots.getLastD v ≠ first := by
  rcases List.eq_nil_or_concat slots with rfl | ⟨slots, last, rfl⟩
  · exact hv
  · rw [List.concat_eq_append, List.getLastD_concat]
    rintro rfl
    exact hnot (by simp)

/-- The first dequeue returns the last slot that was put in, or none. -/
theorem not_isFifo_of_dequeue (hempty : NoSlots heap) (hmap : mapHeaderLen ≤ heap.mapSize)
    (hcalls : Allowed (mapSlotMax heap) [] (slots.map .enqueue ++ .dequeue :: calls)) :
    ¬ IsFifo dbg heap (slots.map .enqueue ++ .dequeue :: calls) := by
  rintro ⟨heap', hrun, -⟩
  obtain ⟨hnd, hslots, hne, -⟩ := allowed_enqueues hcalls List.nodup_nil
  rw [List.nil_append] at hnd hne
  obtain ⟨first, slots, rfl⟩ := List.exists_cons_of_ne_nil hne
  obtain ⟨hstuck, -, -⟩ := hempty.enqueueAll hmap hnd hslots
  have hdeq := slotCalls_enqueues hrun
  rw [fifo_enqueues] at hdeq
  obtain ⟨x, t, hx, hrest⟩ := Exec.bind_eq_ok.1 hdeq
  obtain ⟨outs, t', -, hout⟩ := Exec.bind_eq_ok.1 hrest
  obtain ⟨rfl, -⟩ := mapSlotsDequeue_ok hx
  rw [hstuck.head, hstuck.next] at hout
  have hfirst : slots.getLastD mapNull = first := by
    injection hout with hout
    exact List.head_eq_of_cons_eq hout
  have hnull := slot_ne_null (hslots first List.mem_cons_self)
  exact getLastD_ne (List.nodup_cons.1 hnd).1 hnull.symm hfirst

theorem not_isFifo_of_three {a b c : Nat} (hempty : NoSlots heap) (hmap : mapHeaderLen ≤ heap.mapSize)
    (hcalls : Allowed (mapSlotMax heap) [] ((a :: b :: c :: slots).map .enqueue)) :
    ¬ IsFifo dbg heap ((a :: b :: c :: slots).map .enqueue) := by
  rintro ⟨heap', hrun, hchain⟩
  rw [← List.append_nil (List.map _ _)] at hcalls hrun hchain
  obtain ⟨hnd, hslots, -⟩ := allowed_enqueues hcalls List.nodup_nil
  rw [List.nil_append] at hnd
  obtain ⟨hstuck, -, -⟩ := hempty.enqueueAll hmap hnd hslots
  rw [fifo_enqueues] at hrun hchain
  have hend := slotCalls_enqueues hrun
  cases hend
  obtain ⟨-, -, hb, -⟩ := hchain
  have hb : (c :: slots).getLastD b = b := by
    rw [← List.getLastD_cons, ← hstuck.next]
    exact hb
  rw [List.getLastD_cons] at hb
  obtain ⟨hnot, -⟩ := List.nodup_cons.1 (List.nodup_cons.1 hnd).2
  exact getLastD_ne (List.not_mem_of_not_mem_cons hnot) (List.ne_of_not_mem_cons hnot).symm hb

theorem isFifo_nil (hempty : NoSlots heap) (dbg : Bool) : IsFifo dbg heap [] := ⟨heap, rfl, hempty.head⟩

theorem isFifo_one (hempty : NoSlots heap) (hmap : mapHeaderLen ≤ heap.mapSize) (hslot : slot < mapSlotMax heap) (dbg : Bool) :
    IsFifo dbg heap [.enqueue slot] := by
  have hstuck := hempty.enqueued hmap hslot
  refine ⟨enqueued heap slot, ?_, hstuck.head, slot_ne_null hslot, hstuck.next⟩
  unfold slotCalls
  rw [Exec.bind_ok (mapSlotsEnqueue_run fun _ => hempty.checks hslot)]
  rfl

theorem isFifo_two {a b : Nat} (hempty : NoSlots heap) (hmap : mapHeaderLen ≤ heap.mapSize) (ha : a < mapSlotMax heap)
    (hb : b < mapSlotMax heap) (hne : b ≠ a) (dbg : Bool) : IsFifo dbg heap [.enqueue a, .enqueue b] := by
  have hone := hempty.enqueued hmap ha
  have hmax := mapSlotMax_enqueued heap a
  have htwo := hone.enqueued (by rwa [enqueued_mapSize]) (by rwa [hmax]) (by rwa [hmax]) hne
  have hnull := slot_ne_null hb
  refine ⟨enqueued (enqueued heap a) b, ?_, htwo.head, slot_ne_null ha, htwo.next, hnull, htwo.next_last hnull⟩
  unfold slotCalls slotCalls
  rw [Exec.bind_ok (mapSlotsEnqueue_run fun _ => hempty.checks ha),
    Exec.bind_ok (mapSlotsEnqueue_run fun _ => hone.checks (by rwa [hmax]) (by rwa [hmax]))]
  rfl

/-- The slot list is a queue for calls that take no slot out and put in at most two, and for no others. -/
theorem slot_list_fifo_iff (hempty : NoSlots heap) (hlen : LongEnough heap len)
    (hcalls : Allowed (mapSlotMax heap) [] calls) (dbg : Bool) :
    IsFifo dbg heap calls ↔ SlotCall.dequeue ∉ calls ∧ calls.length ≤ 2 := by
  have hmap := hlen.header_le
  rcases slotCalls_split calls with ⟨slots, rfl⟩ | ⟨slots, rest, rfl⟩
  · have hno : SlotCall.dequeue ∉ slots.map .enqueue := by simp
    match slots with
    | [] => exact ⟨fun _ => ⟨hno, by decide⟩, fun _ => isFifo_nil hempty dbg⟩
    | [slot] => exact ⟨fun _ => ⟨hno, by simp⟩, fun _ => isFifo_one hempty hmap hcalls.1 dbg⟩
    | [a, b] =>
      obtain ⟨ha, -, hb, hne, -⟩ := hcalls
      exact ⟨fun _ => ⟨hno, by simp⟩, fun _ => isFifo_two hempty hmap ha hb (by simpa using hne) dbg⟩
    | a :: b :: c :: slots =>
      exact ⟨fun h => absurd h (not_isFifo_of_three hempty hmap hcalls), fun h => absurd h.2 (by simp)⟩
  · exact ⟨fun h => absurd h (not_isFifo_of_dequeue hempty hmap hcalls), fun h => absurd h.1 (by simp)⟩

end Calls

/-- The bootstrap heap with empty lists. -/
def emptyHeap : MemHeap := { bootstrapHeap with words := fun _ => mapNull }

theorem emptyHeap_longEnough : LongEnough emptyHeap 61440 := by
  refine ⟨by decide, fun slot hslot => ?_⟩
  have hmax : mapSlotMax emptyHeap = 30592 := by decide
  rw [slotIdx_eq (by decide) hslot, mapHeaderLen_eq]
  omega

theorem slot_list_fifo_iff_two : IsFifo true emptyHeap [.enqueue 7, .enqueue 3] := by
  have hcalls : Allowed (mapSlotMax emptyHeap) [] [.enqueue 7, .enqueue 3] := ⟨by decide, by decide, by decide, by decide, trivial⟩
  exact (slot_list_fifo_iff ⟨rfl, rfl⟩ emptyHeap_longEnough hcalls true).2 ⟨by simp, by decide⟩

/-- A slot that is put in and taken out does not come back, in both builds. -/
theorem slot_list_loses_slot : Allowed (mapSlotMax emptyHeap) [] [.enqueue 0, .dequeue] ∧
    ¬ IsFifo true emptyHeap [.enqueue 0, .dequeue] ∧ ¬ IsFifo false emptyHeap [.enqueue 0, .dequeue] := by
  have hcalls : Allowed (mapSlotMax emptyHeap) [] ([0].map .enqueue ++ [.dequeue]) := ⟨by decide, by decide, by decide, trivial⟩
  have hnot : ∀ dbg, ¬ IsFifo dbg emptyHeap ([0].map .enqueue ++ [.dequeue]) :=
    fun _ => not_isFifo_of_dequeue ⟨rfl, rfl⟩ (by decide) hcalls
  exact ⟨hcalls, hnot true, hnot false⟩

end Cing.HeapMap
