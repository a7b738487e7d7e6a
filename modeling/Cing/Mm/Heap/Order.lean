/-
The order of frees. What `mm_heap_free` joins and when depends on the order in which blocks come back, but
the result does not: between the blocks still handed out, the free blocks are the largest aligned ranges
of pages, so the allocated blocks alone determine the partition of the heap and the free lists as sets.
-/
import Cing.Mm.Heap.Runs

namespace Cing.Heap

open Bytes Linked Buddy Dyadic

section Order

variable {σ : Type} {dbg : Bool} {pg : Paging σ} {s s₁ s₂ : HeapState σ} {live live₁ live₂ : List (Nat × Nat)} {A A₁ A₂ : St}

/-- `mm_heap_free` of each pointer of a list. -/
def freeEach (dbg : Bool) : List Nat → HeapM σ Unit
  | [] => return ()
  | u :: us => do
    mmHeapFree dbg u
    freeEach dbg us

/-- What is left when all pointers of a list are given back. -/
theorem Good.freeEach (dbg : Bool) : ∀ {us : List Nat} {s : HeapState σ} {live : List (Nat × Nat)} {A : St},
    Good s live A → us.Nodup →
    (∀ u ∈ us, ∃ a ∈ live, a.1 = u) → ∃ s' live' A', Heap.freeEach dbg us s = .ok () s' ∧ Good s' live' A' ∧ A'.pages = A.pages ∧
      ∀ p c, A'.blk p = some ⟨c, false⟩ ↔ A.blk p = some ⟨c, false⟩ ∧ addr p + sizeofBlock ∉ us := by
  intro us
  induction us with
  | nil =>
    intro s live A h _ _
    exact ⟨s, live, A, rfl, h, rfl, fun p c => by simp⟩
  | cons u us ih =>
    intro s live A h hnd hus
    obtain ⟨hu, hnd'⟩ := List.nodup_cons.1 hnd
    obtain ⟨a, ha, rfl⟩ := hus _ (List.mem_cons_self ..)
    obtain ⟨p, c, hb, rfl⟩ := h.owned.1 ha
    obtain ⟨s₁, hrun₁, h₁, -⟩ := h.free_run dbg hb
    have hr := release_released h.inv h.coalesced hb
    have hus₁ : ∀ u ∈ us, ∃ a ∈ live.erase (payload p c), a.1 = u := by
      intro u' hu'
      obtain ⟨a', ha', rfl⟩ := hus u' (List.mem_cons_of_mem _ hu')
      refine ⟨a', (h.nodup.mem_erase_iff).2 ⟨?_, ha'⟩, rfl⟩
      rintro rfl
      exact hu hu'
    obtain ⟨s', live', A', hrun', h', hpages, hlive⟩ := ih h₁ hnd' hus₁
    refine ⟨s', live', A', ?_, h', hpages.trans hr.pages, fun q c' => ?_⟩
    · rw [Heap.freeEach, Exec.bind_ok hrun₁]
      exact hrun'
    · have hq : q ≠ p ↔ addr q + sizeofBlock ≠ (payload p c).1 := by
        simp only [payload]
        exact not_congr ⟨fun e => by rw [e], fun e => addr_inj (Nat.add_right_cancel e)⟩
      rw [hlive, hr.live, hq, List.mem_cons, not_or, and_assoc]

/-- The same blocks in two states. -/
structure SameBlocks (dbg : Bool) (s₁ s₂ : HeapState σ) : Prop where
  heapEnd : s₁.heapEnd = s₂.heapEnd
  blocks : ∃ bs, Walk dbg s₁ va48Heap bs ∧ Walk dbg s₂ va48Heap bs ∧
    ∀ b ∈ bs, getClass s₁.mem b = getClass s₂.mem b ∧ getIsFree s₁.mem b = getIsFree s₂.mem b
  lists : ∀ c < blockMaxClass, ∃ l₁ l₂, Chain 0 (getNextFree s₁.mem) (s₁.freeList c) l₁ ∧
    Chain 0 (getNextFree s₂.mem) (s₂.freeList c) l₂ ∧ l₁.Perm l₂

/-- A walk over the same classes goes on with what lies behind the end. -/
theorem Walk.append : ∀ {b : Nat} {bs bs' : List Nat}, Walk dbg s₁ b bs → s₁.heapEnd ≤ s₂.heapEnd →
    (∀ x ∈ bs, getClass s₁.mem x = getClass s₂.mem x ∧ getClass s₁.mem x < blockMaxClass) → Walk dbg s₂ s₁.heapEnd bs' →
    Walk dbg s₂ b (bs ++ bs')
  | b, [], _, h, _, _, h' => by
    rw [show b = s₁.heapEnd from h]
    exact h'
  | b, x :: t, _, ⟨hx, hlt, n, hn, ht⟩, hend, hcls, h' => by
    obtain ⟨hc, h16⟩ := hcls x (List.mem_cons_self ..)
    rw [hx] at hc h16
    refine ⟨hx, hlt.trans_le hend, n, ?_, ht.append hend (fun y hy => hcls y (List.mem_cons_of_mem _ hy)) h'⟩
    rw [sizeOfClass_run dbg h16] at hn
    cases hn
    rw [← hc, sizeOfClass_run dbg h16]

theorem Walk.congr {b : Nat} {bs : List Nat} (h : Walk dbg s₁ b bs) (hend : s₁.heapEnd = s₂.heapEnd)
    (hcls : ∀ x ∈ bs, getClass s₁.mem x = getClass s₂.mem x ∧ getClass s₁.mem x < blockMaxClass) : Walk dbg s₂ b bs := by
  have happ : Walk dbg s₂ b (bs ++ []) := h.append hend.le hcls hend
  rwa [List.append_nil] at happ

/-- Heaps with the same allocated blocks have the same blocks. -/
theorem Good.sameBlocks (h₁ : Good s₁ live₁ A₁) (h₂ : Good s₂ live₂ A₂) (hpages : A₁.pages = A₂.pages)
    (hlive : ∀ p c, A₁.blk p = some ⟨c, false⟩ ↔ A₂.blk p = some ⟨c, false⟩) : SameBlocks dbg s₁ s₂ := by
  have hblk := blk_of_live h₁.inv h₁.coalesced h₂.inv h₂.coalesced hpages hlive
  have hend : s₁.heapEnd = s₂.heapEnd := by rw [h₁.sim.heapEnd, h₂.sim.heapEnd, hpages]
  obtain ⟨bs, hw, hmem⟩ := h₁.walk dbg
  have hsame : ∀ b ∈ bs, getClass s₁.mem b = getClass s₂.mem b ∧ getIsFree s₁.mem b = getIsFree s₂.mem b ∧
      getClass s₁.mem b < blockMaxClass := by
    intro b hb
    obtain ⟨q, ⟨c, f⟩, hq, rfl⟩ := (hmem b).1 hb
    have hq₂ : A₂.blk q = some ⟨c, f⟩ := hblk ▸ hq
    rw [h₁.sim.rep.cls hq, h₂.sim.rep.cls hq₂, h₁.sim.rep.isFree hq, h₂.sim.rep.isFree hq₂]
    exact ⟨rfl, rfl, Nat.lt_succ_of_le (h₁.inv.clsLe hq)⟩
  refine ⟨hend, ⟨bs, hw, hw.congr hend fun b hb => ⟨(hsame b hb).1, (hsame b hb).2.2⟩,
    fun b hb => ⟨(hsame b hb).1, (hsame b hb).2.1⟩⟩,
    fun c hc => ⟨_, _, h₁.sim.rep.chain c hc, h₂.sim.rep.chain c hc, List.Perm.map _ ?_⟩⟩
  refine (List.perm_ext_iff_of_nodup (h₁.inv.lists.nodup c) (h₂.inv.lists.nodup c)).2 fun q => ?_
  rw [h₁.inv.lists.mem, h₂.inv.lists.mem, hblk]

/-- Freeing live pointers in two orders ends with the same blocks, and with the same blocks on each list. -/
theorem free_order_irrelevant (h : Reach dbg pg s live) {us us' : List Nat} (hnd : us.Nodup)
    (hus : ∀ u ∈ us, ∃ a ∈ live, a.1 = u) (hperm : us'.Perm us) :
    ∃ s₁ s₂, freeEach dbg us s = .ok () s₁ ∧ freeEach dbg us' s = .ok () s₂ ∧ SameBlocks dbg s₁ s₂ := by
  obtain ⟨A, h⟩ := h.good
  obtain ⟨s₁, live₁, A₁, hrun₁, h₁, hpages₁, hlive₁⟩ := h.freeEach dbg hnd hus
  obtain ⟨s₂, live₂, A₂, hrun₂, h₂, hpages₂, hlive₂⟩ := h.freeEach dbg (hperm.nodup_iff.2 hnd)
    fun u hu => hus u (hperm.mem_iff.1 hu)
  refine ⟨s₁, s₂, hrun₁, hrun₂, h₁.sameBlocks h₂ (hpages₁.trans hpages₂.symm) fun p c => ?_⟩
  rw [hlive₁, hlive₂, hperm.mem_iff]

theorem free_order_irrelevant_two : ∃ s a b s₁ s₂, Reach true countingPaging s [b, a] ∧ freeEach true [a.1, b.1] s = .ok () s₁ ∧
    freeEach true [b.1, a.1] s = .ok () s₂ ∧ SameBlocks true s₁ s₂ := by
  obtain ⟨s, a, b, h, hne⟩ := reach_two
  have hnd : [a.1, b.1].Nodup := List.nodup_cons.2 ⟨by simpa using hne, List.nodup_singleton _⟩
  have hus : ∀ u ∈ [a.1, b.1], ∃ x ∈ [b, a], x.1 = u := by
    intro u hu
    rcases List.mem_cons.1 hu with rfl | hu
    · exact ⟨a, by simp, rfl⟩
    · exact ⟨b, by simp, (List.mem_singleton.1 hu).symm⟩
  obtain ⟨s₁, s₂, h1, h2, h3⟩ := free_order_irrelevant h hnd hus (List.Perm.swap ..)
  exact ⟨s, a, b, s₁, s₂, h, h1, h2, h3⟩

end Order

end Cing.Heap
