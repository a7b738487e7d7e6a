/-
An allocation that is given back at once. The free undoes the cuts that the allocation made and no more,
because no two buddies were free before: each cut block meets its other half alone on its list, and the
block it all came from goes back to the front of its own.
-/
import Cing.Mm.Heap.Order

namespace Cing.Heap

open Bytes Linked Buddy Dyadic

section Undo

variable {σ : Type} {dbg : Bool} {pg : Paging σ} {s s₁ s₂ : HeapState σ} {live live₂ : List (Nat × Nat)} {A A₂ : St} {len : Nat}

/-- The same blocks, and the same free lists in the same order. -/
structure SameHeap (dbg : Bool) (s s' : HeapState σ) : Prop where
  heapEnd : s'.heapEnd = s.heapEnd
  blocks : ∃ bs, Walk dbg s va48Heap bs ∧ Walk dbg s' va48Heap bs ∧
    ∀ b ∈ bs, getClass s.mem b = getClass s'.mem b ∧ getIsFree s.mem b = getIsFree s'.mem b
  lists : ∀ c < blockMaxClass, ∃ l, Chain 0 (getNextFree s.mem) (s.freeList c) l ∧ Chain 0 (getNextFree s'.mem) (s'.freeList c) l

/-- One free block of the top class more, at the old end. -/
structure OneMore (dbg : Bool) (s s' : HeapState σ) : Prop where
  heapEnd : s'.heapEnd = s.heapEnd + 2 ^ 27
  blocks : ∃ bs, Walk dbg s va48Heap bs ∧ Walk dbg s' va48Heap (bs ++ [s.heapEnd]) ∧
    ∀ b ∈ bs, getClass s.mem b = getClass s'.mem b ∧ getIsFree s.mem b = getIsFree s'.mem b
  new : getClass s'.mem s.heapEnd = 15 ∧ getIsFree s'.mem s.heapEnd = true
  lists : ∀ c < 15, ∃ l, Chain 0 (getNextFree s.mem) (s.freeList c) l ∧ Chain 0 (getNextFree s'.mem) (s'.freeList c) l
  top : ∃ l, Chain 0 (getNextFree s.mem) (s.freeList 15) l ∧ Chain 0 (getNextFree s'.mem) (s'.freeList 15) (s.heapEnd :: l)

/-- Two heaps in which each block of the first is a block of the second. -/
theorem Good.headers (h : Good s live A) (h₂ : Good s₂ live₂ A₂)
    (hblk : ∀ p k, A.blk p = some k → A₂.blk p = some k) {bs : List Nat}
    (hw : Walk dbg s va48Heap bs) {b : Nat} (hb : b ∈ bs) :
    (getClass s.mem b = getClass s₂.mem b ∧ getIsFree s.mem b = getIsFree s₂.mem b) ∧ getClass s.mem b < blockMaxClass := by
  obtain ⟨q, ⟨c, f⟩, hq, rfl⟩ := (h.isBlock dbg).1 ⟨bs, hw, hb⟩
  have hq₂ := hblk q _ hq
  rw [h.sim.rep.cls hq, h₂.sim.rep.cls hq₂, h.sim.rep.isFree hq, h₂.sim.rep.isFree hq₂]
  exact ⟨⟨rfl, rfl⟩, Nat.lt_succ_of_le (h.inv.clsLe hq)⟩

/-- Two states of one buddy system. -/
theorem Good.sameHeap (dbg : Bool) (h : Good s live A) (h₂ : Good s₂ live₂ A) : SameHeap dbg s s₂ := by
  have hend : s₂.heapEnd = s.heapEnd := by rw [h₂.sim.heapEnd, h.sim.heapEnd]
  obtain ⟨bs, hw, -⟩ := h.walk dbg
  have hhdr : ∀ {b}, b ∈ bs → _ := fun hb => h.headers h₂ (fun _ _ => id) hw hb
  refine ⟨hend, ⟨bs, hw, hw.congr hend.symm fun b hb => ⟨(hhdr hb).1.1, (hhdr hb).2⟩, fun b hb => (hhdr hb).1⟩, fun c hc => ?_⟩
  exact ⟨_, h.sim.rep.chain c hc, h₂.sim.rep.chain c hc⟩

/-- A buddy system and the one grown from it. -/
theorem Good.oneMore (dbg : Bool) (h : Good s live A) (h₂ : Good s₂ live₂ (grow 15 A)) : OneMore dbg s s₂ := by
  have hblk : (grow 15 A).blk = Function.update A.blk A.pages (some ⟨15, true⟩) := by simp [grow, push]
  have hnew : (grow 15 A).blk A.pages = some ⟨15, true⟩ := by rw [hblk, Function.update_self]
  have hold : ∀ p k, A.blk p = some k → (grow 15 A).blk p = some k := by
    intro p k hp
    rw [hblk, Function.update_of_ne]
    · exact hp
    · rintro rfl
      rw [h.inv.blk_end] at hp
      cases hp
  have hcls := h₂.sim.rep.cls hnew
  have hend : s₂.heapEnd = s.heapEnd + 2 ^ 27 := by
    rw [h₂.sim.heapEnd, h.sim.heapEnd]
    show addr (A.pages + 2 ^ 15) = _
    unfold addr
    omega
  obtain ⟨bs, hw, -⟩ := h.walk dbg
  have hhdr : ∀ {b}, b ∈ bs → _ := fun hb => h.headers h₂ hold hw hb
  have hlast : Walk dbg s₂ s.heapEnd [s.heapEnd] := by
    refine ⟨rfl, by omega, 2 ^ 15 * 4096, ?_, ?_⟩
    · rw [h.sim.heapEnd, hcls]
      exact sizeOfClass_run dbg (by decide) s₂
    · show _ = s₂.heapEnd
      omega
  refine ⟨hend, ⟨bs, hw, hw.append (by omega) (fun b hb => ⟨(hhdr hb).1.1, (hhdr hb).2⟩) hlast, fun b hb => (hhdr hb).1⟩,
    ?_, fun c hc => ?_, _, h.sim.rep.chain 15 (by decide), ?_⟩
  · rw [h.sim.heapEnd]
    exact ⟨hcls, h₂.sim.rep.isFree hnew⟩
  · have hc16 : c < blockMaxClass := by unfold blockMaxClass; omega
    have hchain := h₂.sim.rep.chain c hc16
    rw [show (grow 15 A).free c = A.free c by simp [grow, push, Function.update_of_ne hc.ne]] at hchain
    exact ⟨_, h.sim.rep.chain c hc16, hchain⟩
  · have hchain := h₂.sim.rep.chain 15 (by decide)
    rw [show (grow 15 A).free 15 = A.pages :: A.free 15 by simp [grow, push], List.map_cons] at hchain
    rw [h.sim.heapEnd]
    exact hchain

/-- `mm_heap_alloc` and then `mm_heap_free` of what it returned leave the blocks and the free lists as they were; if the heap had
to grow, it has one more block. -/
theorem alloc_free_identity (h : Reach dbg pg s live) (hlen : Admissible len) (hr : RoomFor dbg pg len s) {a : Nat × Nat}
    (hs : mmHeapAlloc dbg pg len s = .ok a s₁) : ∃ s₂, mmHeapFree dbg a.1 s₁ = .ok () s₂ ∧
      (s₁.heapEnd = s.heapEnd → SameHeap dbg s s₂) ∧ (s₁.heapEnd ≠ s.heapEnd → OneMore dbg s s₂) := by
  obtain ⟨A, h⟩ := h.good
  obtain ⟨s', hs', h₁, -⟩ := h.alloc_run dbg hlen (growsFor_of_ok hlen hr hs)
  rw [hs] at hs'
  cases hs'
  obtain ⟨hc, -, -⟩ := freeClassOf_spec hlen.1 hlen.2
  have hc15 : freeClassOf len ≤ 15 := by unfold blockMaxClass at hc; omega
  have ha := alloc_allocated h.inv h.coalesced hc15
  obtain ⟨s₂, hs₂, h₂, -⟩ := h₁.free_run dbg ha.blk
  have hend := h.sim.heapEnd
  have hend₁ := h₁.sim.heapEnd
  refine ⟨s₂, hs₂, ?_⟩
  rcases release_alloc h.inv h.coalesced hc15 with ⟨hrel, hpages⟩ | ⟨hrel, hpages, -⟩
  · rw [hrel] at h₂
    rw [hpages] at hend₁
    exact ⟨fun _ => h.sameHeap dbg h₂, fun hne => absurd (hend₁.trans hend.symm) hne⟩
  · rw [hrel] at h₂
    refine ⟨fun he => ?_, fun _ => h.oneMore dbg h₂⟩
    rw [hend₁, hend, hpages] at he
    have := addr_inj he
    omega

theorem alloc_free_identity_first : ∃ s a s₁ s₂, Reach true countingPaging s [] ∧ mmHeapAlloc true countingPaging 100 s = .ok a s₁ ∧
    mmHeapFree true a.1 s₁ = .ok () s₂ ∧ OneMore true s s₂ := by
  obtain ⟨s, h, hend⟩ := reach_boot
  have hroom : s.heapEnd + 2 ^ 27 < 2 ^ 64 := by rw [hend, va48Heap_eq]; norm_num
  obtain ⟨A, hgood⟩ := h.good
  obtain ⟨p, s₁, A₁, hs₁, h₁, -⟩ := hgood.alloc true admissible_100 (growsFor_counting hroom)
  obtain ⟨s₂, hs₂, -, hmore⟩ := alloc_free_identity h admissible_100 (fun _ => ⟨hroom, nofun⟩) hs₁
  refine ⟨s, _, s₁, s₂, h, hs₁, hs₂, hmore fun he => ?_⟩
  have hin := h₁.inside (List.mem_cons_self ..)
  have hlen := h₁.payload_spec (List.mem_cons_self ..)
  omega

end Undo

end Cing.Heap
