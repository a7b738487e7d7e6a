/-
Which block `mm_heap_alloc` hands out: one of the smallest class that holds the request, cut from the end
of the first block on the lowest list that is not empty, or of a new block of the top class behind the
heap. Each cut leaves its lower half on the list of the class below, so one block of each class between
becomes free and nothing else changes.
-/
import Cing.Mm.Heap.Runs

namespace Cing.Heap

open Bytes Linked Buddy Dyadic

section Fit

variable {σ : Type} {dbg : Bool} {pg : Paging σ} {s s' : HeapState σ} {live : List (Nat × Nat)} {A : St} {len c : Nat}

theorem Good.freeList_nil (h : Good s live A) (hc : c ≤ 15) : s.freeList c = 0 ↔ A.free c = [] := by
  have hlt : c < blockMaxClass := by unfold blockMaxClass; omega
  rw [(h.sim.rep.chain c hlt).eq_nil_iff, List.map_eq_nil_iff]

/-- A request of class `c` is served by the block at `b`, cut from the end of the block of class `k` at `start`. -/
structure BestFit (dbg : Bool) (s s' : HeapState σ) (c b k start : Nat) : Prop where
  large : c ≤ k ∧ k < blockMaxClass
  smallest : ∀ j, c ≤ j → j < k → s.freeList j = 0
  source : IsFreeBlock dbg s k start ∧ s.freeList k = start ∧ s'.heapEnd = s.heapEnd ∨
    k = 15 ∧ s.freeList 15 = 0 ∧ start = s.heapEnd ∧ s'.heapEnd = s.heapEnd + 2 ^ 27
  last : b + 2 ^ c * pageSize4K = start + 2 ^ k * pageSize4K
  cls : getClass s'.mem b = c
  live : ∀ x, IsLiveBlock dbg s' x ↔ IsLiveBlock dbg s x ∨ x = b
  free : ∀ j x, IsFreeBlock dbg s' j x ↔
    IsFreeBlock dbg s j x ∧ x ≠ start ∨ c ≤ j ∧ j < k ∧ x + 2 ^ (j + 1) * pageSize4K = start + 2 ^ k * pageSize4K
  grows : s'.heapEnd = s.heapEnd + 2 ^ 27 ↔ ∀ j, c ≤ j → j < blockMaxClass → s.freeList j = 0

theorem freeClassOf_least (hlen : Admissible len) (hc : IsLeast {c | len + sizeofBlock ≤ 2 ^ c * pageSize4K} c) :
    freeClassOf len = c := by
  obtain ⟨-, hfit, hmin⟩ := freeClassOf_spec hlen.1 hlen.2
  refine le_antisymm ?_ (hc.2 hfit)
  by_contra hlt
  have h1 := hmin c (by omega)
  have h2 : len + sizeofBlock ≤ 2 ^ c * 4096 := hc.1
  omega

/-- The sources of a block in memory. -/
theorem Good.source (dbg : Bool) (h : Good s live A) {A' : St} {live' : List (Nat × Nat)} (h' : Good s' live' A') {k p : Nat}
    (hs : Source 15 c A k p A'.pages) : (∀ j, c ≤ j → j < k → s.freeList j = 0) ∧
      (IsFreeBlock dbg s k (addr p) ∧ s.freeList k = addr p ∧ s'.heapEnd = s.heapEnd ∨
        k = 15 ∧ s.freeList 15 = 0 ∧ addr p = s.heapEnd ∧ s'.heapEnd = s.heapEnd + 2 ^ 27) ∧
      (s'.heapEnd = s.heapEnd + 2 ^ 27 ↔ ∀ j, c ≤ j → j < blockMaxClass → s.freeList j = 0) := by
  have hend := h.sim.heapEnd
  have hend' := h'.sim.heapEnd
  generalize A'.pages = pages at hs hend'
  cases hs with
  | @listed _ _ t h1 h2 h3 h4 =>
    have hk : k < blockMaxClass := by unfold blockMaxClass; omega
    have hsame : s'.heapEnd = s.heapEnd := hend'.trans hend.symm
    have hhead := h.sim.rep.head_cons hk h4
    refine ⟨fun j hj hjk => (h.freeList_nil (by omega)).2 (h3 j hj hjk), .inl ⟨?_, hhead, hsame⟩, ?_⟩
    · exact (h.isFreeBlock dbg).2 ⟨p, h.inv.head h4, rfl⟩
    · constructor
      · intro hgrow
        omega
      · intro hall
        have := (h.freeList_nil h2).1 (hall k h1 hk)
        rw [h4] at this
        cases this
  | grown h1 h2 =>
    have hgrow : s'.heapEnd = s.heapEnd + 2 ^ 27 := by
      rw [hend', hend]
      unfold addr
      omega
    have hnil : ∀ j, c ≤ j → j ≤ 15 → s.freeList j = 0 := fun j hj hj15 => (h.freeList_nil hj15).2 (h2 j hj hj15)
    refine ⟨fun j hj hjk => hnil j hj hjk.le, .inr ⟨rfl, hnil 15 h1 le_rfl, hend.symm, hgrow⟩, ?_⟩
    exact ⟨fun _ j hj hj16 => hnil j hj (by unfold blockMaxClass at hj16; omega), fun _ => hgrow⟩

/-- `mm_heap_alloc` of an admissible length returns a block of the least class that holds it, and cuts it from the best
block there is. -/
theorem alloc_best_fit (h : Reach dbg pg s live) (hlen : Admissible len) (hg : GrowsFor pg len s)
    (hc : IsLeast {c | len + sizeofBlock ≤ 2 ^ c * pageSize4K} c) :
    ∃ s' b k start, mmHeapAlloc dbg pg len s = .ok (b + sizeofBlock, 2 ^ c * pageSize4K - sizeofBlock) s' ∧
      len ≤ 2 ^ c * pageSize4K - sizeofBlock ∧ BestFit dbg s s' c b k start := by
  obtain ⟨A, h⟩ := h.good
  obtain ⟨s', hs', hgood, hfit, -⟩ := h.alloc_run dbg hlen hg
  obtain ⟨hlt, -, -⟩ := freeClassOf_spec hlen.1 hlen.2
  obtain rfl := freeClassOf_least hlen hc
  have hc15 : freeClassOf len ≤ 15 := by unfold blockMaxClass at hlt; omega
  obtain ⟨k, p, hsrc, hcv⟩ := take_carved h.inv (n := 15 - freeClassOf len) (c := freeClassOf len) (by omega)
  have ha := alloc_allocated h.inv h.coalesced hc15
  rw [← alloc_pages] at hsrc
  obtain ⟨hsmall, hsource, hgrows⟩ := h.source dbg hgood hsrc
  have hstart : (Buddy.alloc 15 (freeClassOf len) A).1 + 2 ^ freeClassOf len = p + 2 ^ k := by
    rw [alloc_fst]
    exact hcv.start
  refine ⟨s', addr (Buddy.alloc 15 (freeClassOf len) A).1, k, addr p, hs', hfit,
    ⟨⟨hsrc.le.1, by have := hsrc.le.2; unfold blockMaxClass; omega⟩, hsmall, hsource, ?_, hgood.sim.rep.cls ha.blk, fun x => ?_,
    fun j x => ?_, hgrows⟩⟩
  · unfold addr pageSize4K
    omega
  · rw [hgood.isLiveBlock dbg, h.isLiveBlock dbg]
    constructor
    · rintro ⟨a, ha, hx⟩
      rcases List.mem_cons.1 ha with rfl | ha
      · exact .inr (Nat.add_right_cancel hx.symm)
      · exact .inl ⟨a, ha, hx⟩
    · rintro (⟨a, ha, hx⟩ | rfl)
      · exact ⟨a, List.mem_cons_of_mem _ ha, hx⟩
      · exact ⟨_, List.mem_cons_self .., rfl⟩
  · rw [hgood.isFreeBlock dbg, h.isFreeBlock dbg]
    constructor
    · rintro ⟨q, hq, rfl⟩
      rcases (alloc_free_iff h.inv hsrc hcv).1 hq with ⟨hq, hne⟩ | ⟨h1, h2, h3⟩
      · exact .inl ⟨⟨q, hq, rfl⟩, fun e => hne (addr_inj e)⟩
      · refine .inr ⟨h1, h2, ?_⟩
        unfold addr pageSize4K
        omega
    · rintro (⟨⟨q, hq, rfl⟩, hne⟩ | ⟨h1, h2, h3⟩)
      · exact ⟨q, (alloc_free_iff h.inv hsrc hcv).2 (.inl ⟨hq, fun e => hne (congrArg addr e)⟩), rfl⟩
      · have hle : 2 ^ (j + 1) ≤ 2 ^ k := Nat.pow_le_pow_right (by omega) h2
        unfold addr pageSize4K at h3
        refine ⟨p + 2 ^ k - 2 ^ (j + 1), (alloc_free_iff h.inv hsrc hcv).2 (.inr ⟨h1, h2, by omega⟩), ?_⟩
        unfold addr
        omega

theorem alloc_best_fit_first : ∃ s s' b k start, Reach true countingPaging s [] ∧
    mmHeapAlloc true countingPaging 100 s = .ok (b + sizeofBlock, 4072) s' ∧ BestFit true s s' 0 b k start := by
  obtain ⟨s, h, hend⟩ := reach_boot
  have hg : GrowsFor countingPaging 100 s := growsFor_counting (by rw [hend, va48Heap_eq]; norm_num)
  have hleast : IsLeast {c | 100 + sizeofBlock ≤ 2 ^ c * pageSize4K} 0 := ⟨by decide, fun _ _ => Nat.zero_le _⟩
  obtain ⟨s', b, k, start, hrun, -, hfit⟩ := alloc_best_fit h admissible_100 hg hleast
  exact ⟨s, s', b, k, start, h, hrun, hfit⟩

end Fit

end Cing.Heap
