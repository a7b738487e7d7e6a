/-
Two runs of the heap side by side: the same calls, while the users of each run write what they like into
their payloads. Headers lie in the same memory as payloads, but a call reads only headers of blocks, so
both runs stay with one buddy system. What that system does not say, the link a block handed out still
has in its header, points to the list the block came from and is the same as well.
-/
import Cing.Mm.Heap.Order

namespace Cing.Heap

open Bytes Linked Buddy Dyadic

section Twins

variable {σ : Type} (dbg : Bool) (pg : Paging σ)

/-- Two runs from `mm_heap_bootstrap` with the same calls: their states, and the allocations that are live in each. -/
inductive Twins : HeapState σ → HeapState σ → List (Nat × Nat) → List (Nat × Nat) → Prop
  | boot {s₀ s t₀ t : HeapState σ} : mmHeapBootstrap s₀ = .ok () s → mmHeapBootstrap t₀ = .ok () t → Twins s t [] []
  | alloc {s s' t t' : HeapState σ} {ls lt : List (Nat × Nat)} {len : Nat} {a b : Nat × Nat} : Twins s t ls lt →
      Admissible len → GrowsFor pg len s → GrowsFor pg len t → mmHeapAlloc dbg pg len s = .ok a s' →
      mmHeapAlloc dbg pg len t = .ok b t' → Twins s' t' (a :: ls) (b :: lt)
  | free {s s' t t' : HeapState σ} {ls lt : List (Nat × Nat)} {a : Nat × Nat} : Twins s t ls lt → a ∈ ls →
      mmHeapFree dbg a.1 s = .ok () s' → mmHeapFree dbg a.1 t = .ok () t' → Twins s' t' (ls.erase a) (lt.erase a)
  | writeLeft {s t : HeapState σ} {ls lt : List (Nat × Nat)} {x : Nat} {v : UInt8} : Twins s t ls lt → InPayload ls x →
      Twins { s with mem := put s.mem x v } t ls lt
  | writeRight {s t : HeapState σ} {ls lt : List (Nat × Nat)} {x : Nat} {v : UInt8} : Twins s t ls lt → InPayload lt x →
      Twins s { t with mem := put t.mem x v } ls lt

/-- Two states of one buddy system, with the same links in the headers of blocks handed out. -/
structure GoodTwins (s t : HeapState σ) (live : List (Nat × Nat)) (A : St) : Prop where
  left : Good s live A
  right : Good t live A
  link : ∀ p c, A.blk p = some ⟨c, false⟩ → getNextFree s.mem (addr p) = getNextFree t.mem (addr p)

variable {dbg pg} {s s' t t' : HeapState σ} {live ls lt : List (Nat × Nat)} {A : St}

theorem GoodTwins.symm (h : GoodTwins s t live A) : GoodTwins t s live A :=
  ⟨h.right, h.left, fun p c hb => (h.link p c hb).symm⟩

theorem GoodTwins.freeList (h : GoodTwins s t live A) {c : Nat} (hc : c < blockMaxClass) : s.freeList c = t.freeList c :=
  (h.left.sim.rep.chain c hc).head_eq.trans (h.right.sim.rep.chain c hc).head_eq.symm

theorem GoodTwins.write (h : GoodTwins s t live A) {m : Mem} (hm : SameOff (InPayload live) s.mem m) :
    GoodTwins { s with mem := m } t live A := by
  refine ⟨h.left.write hm, h.right, fun p c hb => ?_⟩
  rw [← h.link p c hb]
  exact getNextFree_congr (h.left.sameHdr hm hb)

/-- Both runs get the same block. -/
theorem GoodTwins.alloc (dbg : Bool) (h : GoodTwins s t live A) {len : Nat} (hlen : Admissible len) (hs : GrowsFor pg len s)
    (ht : GrowsFor pg len t) :
    ∃ a s' t' A', mmHeapAlloc dbg pg len s = .ok a s' ∧ mmHeapAlloc dbg pg len t = .ok a t' ∧ GoodTwins s' t' (a :: live) A' := by
  obtain ⟨s', hs', hgs, -, hoffs, hnexts⟩ := h.left.alloc_run dbg hlen hs
  obtain ⟨t', ht', hgt, -, hofft, hnextt⟩ := h.right.alloc_run dbg hlen ht
  obtain ⟨hc, -, -⟩ := freeClassOf_spec hlen.1 hlen.2
  have ha := alloc_allocated h.left.inv h.left.coalesced (c := freeClassOf len) (by unfold blockMaxClass at hc; omega)
  refine ⟨_, s', t', _, hs', ht', hgs, hgt, fun p c hb => ?_⟩
  by_cases hp : p = (Buddy.alloc 15 (freeClassOf len) A).1
  · -- the new block: its link is the head of its list
    rw [hp, hnexts, hnextt]
    exact (hgs.sim.rep.chain _ hc).head_eq.trans (hgt.sim.rep.chain _ hc).head_eq.symm
  · -- no header of another block handed out was written
    have hn : ¬ (FreeAt (Buddy.alloc 15 (freeClassOf len) A).2 p ∨ p = (Buddy.alloc 15 (freeClassOf len) A).1) := by
      rintro (⟨c', hf⟩ | e)
      · rw [hb] at hf; cases hf
      · exact hp e
    rw [getNextFree_congr (Heap.sameHdr hoffs hn), getNextFree_congr (Heap.sameHdr hofft hn)]
    exact h.link p c ((ha.live hp).1 hb)

/-- Both runs take a block back. -/
theorem GoodTwins.free (dbg : Bool) (h : GoodTwins s t live A) {a : Nat × Nat} (ha : a ∈ live) :
    ∃ s' t' A', mmHeapFree dbg a.1 s = .ok () s' ∧ mmHeapFree dbg a.1 t = .ok () t' ∧ GoodTwins s' t' (live.erase a) A' := by
  obtain ⟨p, c, hb, rfl⟩ := h.left.owned.1 ha
  obtain ⟨s', hs', hgs, hoffs⟩ := h.left.free_run dbg hb
  obtain ⟨t', ht', hgt, hofft⟩ := h.right.free_run dbg hb
  have hr := release_released h.left.inv h.left.coalesced hb
  refine ⟨s', t', _, hs', ht', hgs, hgt, fun q c' hq => ?_⟩
  obtain ⟨hq, hne⟩ := hr.live.1 hq
  have hn : ¬ (FreeAt A q ∨ q = p) := by
    rintro (⟨c'', hf⟩ | e)
    · rw [hq] at hf; cases hf
    · exact hne e
  rw [getNextFree_congr (Heap.sameHdr hoffs hn), getNextFree_congr (Heap.sameHdr hofft hn)]
  exact h.link q c' hq

theorem Twins.good (h : Twins dbg pg s t ls lt) : ls = lt ∧ ∃ A, GoodTwins s t ls A := by
  induction h with
  | boot hs ht => exact ⟨rfl, Buddy.empty, good_boot hs, good_boot ht, nofun⟩
  | alloc _ hlen hgs hgt hs ht ih =>
    obtain ⟨rfl, A, h⟩ := ih
    obtain ⟨a, s', t', A', hs', ht', h'⟩ := h.alloc dbg hlen hgs hgt
    rw [hs] at hs'
    rw [ht] at ht'
    cases hs'
    cases ht'
    exact ⟨rfl, A', h'⟩
  | free _ ha hs ht ih =>
    obtain ⟨rfl, A, h⟩ := ih
    obtain ⟨s', t', A', hs', ht', h'⟩ := h.free dbg ha
    rw [hs] at hs'
    rw [ht] at ht'
    cases hs'
    cases ht'
    exact ⟨rfl, A', h'⟩
  | writeLeft _ hx ih =>
    obtain ⟨rfl, A, h⟩ := ih
    exact ⟨rfl, A, h.write (sameOff_put hx)⟩
  | writeRight _ hx ih =>
    obtain ⟨rfl, A, h⟩ := ih
    exact ⟨rfl, A, (h.symm.write (sameOff_put hx)).symm⟩

/-- The header of a block, field by field. -/
def SameHeader (m m' : Mem) (b : Nat) : Prop :=
  getClass m b = getClass m' b ∧ getIsFree m b = getIsFree m' b ∧ getNextFree m b = getNextFree m' b ∧ getMagic m b = getMagic m' b

theorem GoodTwins.sameHeader (h : GoodTwins s t live A) {q : Nat} {b : Blk} (hq : A.blk q = some b) :
    SameHeader s.mem t.mem (addr q) := by
  obtain ⟨c, f⟩ := b
  have hl := h.left.sim.rep
  have hr := h.right.sim.rep
  refine ⟨(hl.cls hq).trans (hr.cls hq).symm, (hl.isFree hq).trans (hr.isFree hq).symm, ?_, (hl.magic hq).trans (hr.magic hq).symm⟩
  cases f with
  | false => exact h.link q c hq
  | true =>
    have hc : c < blockMaxClass := Nat.lt_succ_of_le (h.left.inv.clsLe hq)
    have hmem : q ∈ A.free c := h.left.inv.lists.mem.2 ⟨hq, List.not_mem_nil⟩
    exact (hl.chain c hc).next_eq (hr.chain c hc) _ (List.mem_map_of_mem hmem)

/-- Whatever the users write into their payloads, all calls so far returned the same, and the heaps have the same blocks with
the same headers and the same free lists. -/
theorem heap_ignores_user_data (h : Twins dbg pg s t ls lt) :
    ls = lt ∧ s.heapEnd = t.heapEnd ∧
    (∃ bs, Walk dbg s va48Heap bs ∧ Walk dbg t va48Heap bs ∧ ∀ b ∈ bs, SameHeader s.mem t.mem b) ∧
    ∀ c < blockMaxClass, s.freeList c = t.freeList c ∧
      ∃ l, Chain 0 (getNextFree s.mem) (s.freeList c) l ∧ Chain 0 (getNextFree t.mem) (t.freeList c) l := by
  obtain ⟨rfl, A, h⟩ := h.good
  have hend : s.heapEnd = t.heapEnd := h.left.sim.heapEnd.trans h.right.sim.heapEnd.symm
  obtain ⟨bs, hw, hmem⟩ := h.left.walk dbg
  have hhdr : ∀ b ∈ bs, SameHeader s.mem t.mem b ∧ getClass s.mem b < blockMaxClass := by
    intro b hb
    obtain ⟨q, ⟨c, f⟩, hq, rfl⟩ := (hmem b).1 hb
    refine ⟨h.sameHeader hq, ?_⟩
    rw [h.left.sim.rep.cls hq]
    exact Nat.lt_succ_of_le (h.left.inv.clsLe hq)
  refine ⟨rfl, hend, ⟨bs, hw, hw.congr hend fun b hb => ⟨(hhdr b hb).1.1, (hhdr b hb).2⟩,
    fun b hb => (hhdr b hb).1⟩, fun c hc => ?_⟩
  exact ⟨h.freeList hc, _, h.left.sim.rep.chain c hc, h.right.sim.rep.chain c hc⟩

/-- Two runs with one request, and a byte of it that only one of them wrote. -/
theorem heap_ignores_user_data_first : ∃ (s t : HeapState Nat) (a b : Nat × Nat), Twins true countingPaging s t [a] [b] ∧ a = b ∧
    s.freeList 0 = t.freeList 0 ∧ s.mem a.1 ≠ t.mem a.1 := by
  obtain ⟨s₀, hboot, hend⟩ : ∃ s, mmHeapBootstrap (⟨fun _ => 0, fun _ => 0, 0, 0⟩ : HeapState Nat) = .ok () s ∧
      s.heapEnd = va48Heap :=
    ⟨_, rfl, rfl⟩
  have h₀ : Twins true countingPaging s₀ s₀ [] [] := .boot hboot hboot
  have hg : GrowsFor countingPaging 100 s₀ := growsFor_counting (by rw [hend, va48Heap_eq]; norm_num)
  obtain ⟨-, A, h⟩ := h₀.good
  obtain ⟨a, s, t, A', hs, ht, h'⟩ := h.alloc true admissible_100 hg hg
  have hin : InPayload [a] a.1 := by
    have := (h'.left.payload_spec (List.mem_singleton_self a)).2.2.1
    exact ⟨a, List.mem_singleton_self a, le_rfl, by omega⟩
  have htwins : Twins true countingPaging { s with mem := put s.mem a.1 (if t.mem a.1 = 0 then 1 else 0) } t [a] [a] :=
    .writeLeft (.alloc h₀ admissible_100 hg hg hs ht) hin
  obtain ⟨hsame, -, -, hlists⟩ := heap_ignores_user_data htwins
  refine ⟨_, t, a, a, htwins, (List.cons.inj hsame).1, (hlists 0 (by decide)).1, ?_⟩
  show put s.mem a.1 (if t.mem a.1 = 0 then 1 else 0) a.1 ≠ t.mem a.1
  rw [put_same]
  split
  next h => rw [h]; decide
  next h => exact Ne.symm h

end Twins

end Cing.Heap
