/-
The loops and recursions of mm_heap.c on a represented state: unlinking a block from the middle of its
list, joining buddies upwards, growing the heap and cutting blocks downwards. Each carries out the
operation of the buddy system it stands for, down to `mm_heap_alloc` and `mm_heap_free`.
-/
import Cing.Mm.Heap.Sim

namespace Cing.Heap

open Bytes Linked Buddy Dyadic

/-- The page starts a free block of `A`. -/
def FreeAt (A : St) (p : Nat) : Prop := ∃ c, A.blk p = some ⟨c, true⟩

/-- If no block starts at the page, its memory is no valid header. -/
def Wiped (A : St) (m : Mem) (q : Nat) : Prop := A.blk q = none → getMagic m (addr q) ≠ blockMagic

variable {m m' : Mem} {fl : Nat → Nat} {A : St} {p c : Nat}

/-! ## Taking a block out of its list -/

/-- A changed link of a listed block changes its own list only. -/
theorem Rep.relink {hand : List Nat} {a n : Nat} {l : List Nat} (h : Rep m fl A) (hl : Lists hand A)
    (ha : a ∈ A.free c) (hn : n < 2 ^ 64)
    (hch : Chain 0 (Function.update (getNextFree m) (addr a) n) (fl c) (l.map addr)) :
    Rep (setNextFree m (addr a) n) fl (A.setFree c l) := by
  have hoff := setNextFree_sameOff m a n
  refine ⟨?_, ?_, ?_, ?_⟩
  · intro q c' f hq
    by_cases e : q = a
    · subst e; rw [getClass_setNextFree]; exact h.cls hq
    · rw [getClass_congr (sameHdr hoff e)]; exact h.cls hq
  · intro q c' f hq
    by_cases e : q = a
    · subst e; rw [getIsFree_setNextFree]; exact h.isFree hq
    · rw [getIsFree_congr (sameHdr hoff e)]; exact h.isFree hq
  · intro q c' f hq
    by_cases e : q = a
    · subst e; rw [getMagic_setNextFree]; exact h.magic hq
    · rw [getMagic_congr (sameHdr hoff e)]; exact h.magic hq
  · intro c' hc'
    simp only [St.setFree_free]
    by_cases ec : c' = c
    · subst ec
      rw [Function.update_self]
      refine hch.congr fun x hx => ?_
      obtain ⟨q, -, rfl⟩ := List.mem_map.1 hx
      by_cases e : q = a
      · subst e; rw [Function.update_self, getNextFree_setNextFree _ _ hn]
      · rw [Function.update_of_ne (fun h' => e (addr_inj h')), getNextFree_congr (sameHdr hoff e)]
    · rw [Function.update_of_ne ec]
      refine (h.chain c' hc').congr fun x hx => ?_
      obtain ⟨q, hq, rfl⟩ := List.mem_map.1 hx
      refine getNextFree_congr (sameHdr hoff fun e => ec ?_)
      -- a block is on the list of its own class only
      subst e
      have h1 := (hl.mem.1 hq).1
      rw [(hl.mem.1 ha).1] at h1
      injection h1 with h1; injection h1 with h1; exact h1.symm

section Run

variable {σ : Type} (dbg : Bool) (pg : Paging σ) {s : HeapState σ}

/-- The wanted block is the first one. -/
theorem dequeueBlockLoop_head {b fuel : Nat} (hb : b ≠ 0) (hc : getClass s.mem b = c) (hfl : s.freeList c = b) :
    dequeueBlockLoop dbg b (fuel + 1) b s =
      .ok true { s with freeList := Function.update s.freeList c (getNextFree s.mem b) } := by
  unfold dequeueBlockLoop
  rw [Exec.bind_ok (Exec.get_run s), if_neg hb, if_pos rfl,
    Exec.bind_ok (kernelAssertD_pos (by rw [hc, hfl]) dbg _ s), hc]
  rfl

/-- The loop reaches the block before the wanted one and unlinks it there. -/
theorem dequeueBlockLoop_run {a b : Nat} {l₂ : List Nat} : ∀ {l₁ : List Nat} {fuel free : Nat},
    Chain 0 (getNextFree s.mem) free (l₁ ++ a :: b :: l₂) → (l₁ ++ a :: b :: l₂).Nodup → l₁.length < fuel →
    dequeueBlockLoop dbg b fuel free s = .ok true { s with mem := setNextFree s.mem a (getNextFree s.mem b) }
  | [], fuel + 1, free, ⟨h1, h2, h3⟩, hnd, _ => by
    have hab : a ≠ b := by
      simp only [List.nil_append, List.nodup_cons, List.mem_cons, not_or] at hnd
      exact hnd.1.1
    subst h1
    unfold dequeueBlockLoop
    rw [Exec.bind_ok (Exec.get_run s), if_neg h2, if_neg hab, if_pos h3.1]
    rfl
  | x :: l₁, fuel + 1, free, ⟨h1, h2, h3⟩, hnd, hf => by
    simp only [List.cons_append, List.nodup_cons, List.mem_append, List.mem_cons, not_or] at hnd
    have hnext : getNextFree s.mem x ≠ b := by
      cases l₁ with
      | nil =>
        obtain ⟨h4, -, -⟩ := h3
        rw [h4]
        have := hnd.2
        simp only [List.nil_append, List.nodup_cons, List.mem_cons, not_or] at this
        exact this.1.1
      | cons y l₁ =>
        obtain ⟨h4, -, -⟩ := h3
        rw [h4]
        rintro rfl
        have := hnd.2
        simp at this
    subst h1
    unfold dequeueBlockLoop
    rw [Exec.bind_ok (Exec.get_run s), if_neg h2, if_neg hnd.1.2.2.1, if_neg hnext]
    exact dequeueBlockLoop_run h3 hnd.2 (by simpa using hf)

/-- A free list is no longer than the heap has pages. -/
theorem free_length_le {hand : List Nat} (hi : Inv 15 hand A) (c : Nat) : (A.free c).length ≤ A.pages := by
  have hsub : A.free c ⊆ List.range A.pages := by
    intro q hq
    have h1 := hi.lt (hi.lists.mem.1 hq).1
    have hpos : 0 < 2 ^ c := by positivity
    exact List.mem_range.2 (by omega)
  simpa using ((hi.lists.nodup c).subperm hsub).length_le

theorem Sim.pages_eq (h : Sim s A) : (s.heapEnd - va48Heap) / pageSize4K = A.pages := by
  rw [h.heapEnd]
  unfold addr pageSize4K
  omega

theorem freeListDequeueBlock_run {hand : List Nat} (h : Sim s A) (hi : Inv 15 hand A) (hp : p ∈ A.free c) :
    ∃ s', freeListDequeueBlock dbg (addr p) s = .ok () s' ∧ Sim s' (A.setFree c ((A.free c).erase p)) ∧
      SameOff (InHeaders (FreeAt A)) s.mem s'.mem ∧ s'.pg = s.pg := by
  obtain ⟨hb, -⟩ := hi.lists.mem.1 hp
  have hc : c < blockMaxClass := Nat.lt_succ_of_le (hi.clsLe hb)
  have hnd := hi.lists.nodup c
  have hch := h.rep.chain c hc
  have hlen := free_length_le hi c
  unfold freeListDequeueBlock
  rw [Exec.bind_ok (blockValidate_run dbg h.rep hb), Exec.bind_ok (Exec.get_run s), h.rep.cls hb, h.pages_eq]
  -- the block is the head of its list, or follows another block
  rcases mem_head_or_after hp with ⟨t, ht⟩ | ⟨l₁, a, l₂, hl⟩
  · rw [ht, List.map_cons] at hch
    refine ⟨{ s with freeList := Function.update s.freeList c (getNextFree s.mem (addr p)) }, ?_, ?_,
      SameOff.refl _ _, rfl⟩
    · rw [h.rep.head_cons hc ht, Exec.bind_ok (dequeueBlockLoop_head dbg (addr_ne_zero p) (h.rep.cls hb)
        (h.rep.head_cons hc ht))]
      exact kernelAssertD_pos rfl dbg _ _
    · rw [ht, List.erase_cons_head]
      exact ⟨h.rep.setFree fun _ => hch.2.2, h.heapEnd, h.bound⟩
  · have ha : a ∈ A.free c := by rw [hl]; simp
    have hmap : (A.free c).map addr = l₁.map addr ++ addr a :: addr p :: l₂.map addr := by rw [hl]; simp
    have hnd' : (l₁.map addr ++ addr a :: addr p :: l₂.map addr).Nodup := by
      rw [← hmap]; exact hnd.map fun _ _ => addr_inj
    rw [hmap] at hch
    refine ⟨{ s with mem := setNextFree s.mem (addr a) (getNextFree s.mem (addr p)) }, ?_, ⟨?_, h.heapEnd, h.bound⟩,
      (setNextFree_sameOff _ _ _).mono (InHeaders.mono ?_), rfl⟩
    · rw [Exec.bind_ok (dequeueBlockLoop_run dbg hch hnd' ?_)]
      · exact kernelAssertD_pos rfl dbg _ _
      · rw [hl, List.length_append, List.length_cons] at hlen
        rw [List.length_map]; omega
    · refine h.rep.relink hi.lists ha (load_lt s.mem _ 8) ?_
      rw [hl, erase_after (hl ▸ hnd), List.map_append, List.map_cons]
      exact hch.unlink hnd'
    · rintro q rfl
      exact ⟨c, (hi.lists.mem.1 ha).1⟩

end Run

/-! ## Joining buddies -/

/-- The buddy is off its list; wiping the upper header and writing the lower one joins the pair. -/
theorem Rep.join (h : Rep m fl (A.setFree c ((A.free c).erase (buddy p c)))) (hi : Inv 15 [p] A)
    (hb : A.blk p = some ⟨c, true⟩) (hc : c < 15) (hb' : A.blk (buddy p c) = some ⟨c, true⟩) :
    Rep (initHdr (fill m (addr (lower p c + 2 ^ c)) 0 sizeofBlock) (addr (lower p c)) (c + 1) true 0) fl
      (join p c A) := by
  have hpos : 0 < 2 ^ c := by positivity
  have hd := hi.dvd hb
  obtain ⟨-, hcase⟩ := lower_cases hd
  have hl := hi.lists.erase (hi.lists.mem.2 ⟨hb', by simpa using buddy_ne hd⟩)
  -- neither half is on a list any more
  have hoff : ∀ q, q = lower p c ∨ q = lower p c + 2 ^ c → ∀ c',
      q ∉ (A.setFree c ((A.free c).erase (buddy p c))).free c' := by
    intro q hq c' hm
    have := (hl.mem.1 hm).2
    simp only [List.mem_cons, List.not_mem_nil, or_false, not_or] at this
    rcases hcase with ⟨e1, e2⟩ | ⟨e1, e2⟩ <;> omega
  have h1 := h.setBlk (fill_sameOff m (lower p c + 2 ^ c)) (hoff _ (.inr rfl)) none nofun
  refine h1.setBlk (initHdr_sameOff _ _ _ _ _) (hoff _ (.inl rfl)) _ ?_
  intro c' f' e
  injection e with e; injection e with e1 e2
  subst e1; subst e2
  exact ⟨getClass_initHdr _ _ (by omega) _ _, getIsFree_initHdr _ _ _ _ _, getMagic_initHdr _ _ _ _ _⟩

section Run

variable {σ : Type} (dbg : Bool) (pg : Paging σ) {s : HeapState σ}

/-- One level of `_coalescing_block`: the pair is joined and the recursion goes on with the lower half. -/
theorem coalescingBlock_join (h : Sim s A) (hi : Inv 15 [p] A) (hb : A.blk p = some ⟨c, true⟩) (hc : c < 15)
    (hb' : A.blk (buddy p c) = some ⟨c, true⟩) (fuel : Nat) :
    ∃ s', coalescingBlock dbg (fuel + 1) (addr p) s = coalescingBlock dbg fuel (addr (lower p c)) s' ∧
      Sim s' (join p c A) ∧ SameOff (InHeaders (FreeAt A)) s.mem s'.mem ∧ s'.pg = s.pg ∧
      getMagic s'.mem (addr (lower p c + 2 ^ c)) = 0 := by
  have hd := hi.dvd hb
  have hpos : 0 < 2 ^ c := by positivity
  obtain ⟨-, hcase⟩ := lower_cases hd
  have hmem : buddy p c ∈ A.free c := hi.lists.mem.2 ⟨hb', by simpa using buddy_ne hd⟩
  obtain ⟨s1, hs1, hsim1, hoff1, hpg1⟩ := freeListDequeueBlock_run dbg h hi hmem
  -- the wiped half is the upper one
  have hhalves : (if addr (buddy p c) < addr p then addr p else addr (buddy p c)) = addr (lower p c + 2 ^ c) ∧
      (if addr (buddy p c) < addr p then addr (buddy p c) else addr p) = addr (lower p c) := by
    unfold addr
    rcases hcase with ⟨e1, e2⟩ | ⟨e1, e2⟩
    · rw [if_neg (by omega), if_neg (by omega)]; omega
    · rw [if_pos (by omega), if_pos (by omega)]; omega
  have hfree : FreeAt A (lower p c) ∧ FreeAt A (lower p c + 2 ^ c) := by
    rcases hcase with ⟨e1, e2⟩ | ⟨e1, e2⟩
    · exact ⟨⟨c, e1 ▸ hb⟩, ⟨c, e2 ▸ hb'⟩⟩
    · exact ⟨⟨c, e2 ▸ hb'⟩, ⟨c, e1 ▸ hb⟩⟩
  have hcls : getClass (fill s1.mem (addr (lower p c + 2 ^ c)) 0 sizeofBlock) (addr (lower p c)) = c := by
    rw [getClass_congr (sameHdr (fill_sameOff s1.mem _) (by omega))]
    rcases hcase with ⟨e1, -⟩ | ⟨-, e1⟩
    · rw [← e1]; exact hsim1.rep.cls hb
    · rw [← e1]; exact hsim1.rep.cls hb'
  refine ⟨{ s1 with
      mem := initHdr (fill s1.mem (addr (lower p c + 2 ^ c)) 0 sizeofBlock) (addr (lower p c)) (c + 1) true 0 },
    ?_, ⟨hsim1.rep.join hi hb hc hb', hsim1.heapEnd, hsim1.bound⟩, ?_, hpg1, ?_⟩
  · rw [coalescingBlock, Exec.bind_ok (blockValidate_run dbg h.rep hb), Exec.bind_ok (Exec.get_run s),
      h.rep.cls hb, if_pos (by unfold blockMaxClass; omega), Exec.bind_ok (blockFindBuddy_run dbg h hi hb hc),
      if_pos ⟨h.rep.cls hb', h.rep.isFree hb'⟩, Exec.bind_ok hs1]
    simp only [hhalves.1, hhalves.2]
    rw [Exec.bind_ok (Exec.modify_run _ _), Exec.bind_ok (Exec.get_run _)]
    unfold blockInit
    simp only [bind_assoc, hcls]
    rw [Exec.bind_ok (kernelAssertD_pos (addr_align _) dbg _ _), Exec.bind_ok (Exec.modify_run _ _),
      Nat.mod_eq_of_lt (by omega)]
    rfl
  · exact (hoff1.trans ((fill_sameOff _ _).mono (InHeaders.mono fun q hq => hq ▸ hfree.2))).trans
      ((initHdr_sameOff _ _ _ _ _).mono (InHeaders.mono fun q hq => hq ▸ hfree.1))
  · rw [getMagic_congr (sameHdr (initHdr_sameOff _ _ _ _ _) (by omega)), getMagic_fill]

/-- The recursion ends at the top class, or at a buddy that is cut or handed out. -/
theorem coalescingBlock_stop (h : Sim s A) (hi : Inv 15 [p] A) (hb : A.blk p = some ⟨c, true⟩)
    (hstop : ¬ (c < 15 ∧ A.blk (buddy p c) = some ⟨c, true⟩)) (fuel : Nat) :
    coalescingBlock dbg (fuel + 1) (addr p) s = .ok (addr p) s := by
  rw [coalescingBlock, Exec.bind_ok (blockValidate_run dbg h.rep hb), Exec.bind_ok (Exec.get_run s), h.rep.cls hb]
  by_cases hc : c < 15
  · obtain ⟨c', f', hb', -⟩ := hi.buddy_blk hb hc
    rw [if_pos (by unfold blockMaxClass; omega), Exec.bind_ok (blockFindBuddy_run dbg h hi hb hc),
      h.rep.cls hb', h.rep.isFree hb', if_neg]
    · rfl
    · rintro ⟨rfl, rfl⟩
      exact hstop ⟨hc, hb'⟩
  · rw [if_neg (by unfold blockMaxClass; omega)]
    rfl

/-- Of the pages at which no block starts after a join, only the one that was the upper half started one before. -/
theorem Wiped.join {m m' : Mem} {q : Nat} (h : Wiped A m q) (hm : SameOff (InHeaders (FreeAt A)) m m')
    (hup : getMagic m' (addr (lower p c + 2 ^ c)) = 0) : Wiped (Buddy.join p c A) m' q := by
  intro hq
  simp only [Buddy.join, St.setBlk_blk, St.setFree_blk, Function.update_apply] at hq
  split_ifs at hq with e1 e2
  · rw [e2, hup]
    decide
  · have hfree : ¬ FreeAt A q := by
      rintro ⟨c', hc'⟩
      rw [hq] at hc'
      cases hc'
    rw [getMagic_congr (sameHdr hm hfree)]
    exact h hq

/-- `_coalescing_block` joins the block in hand with free buddies; it writes headers of free blocks. -/
theorem coalescingBlock_run : ∀ {k p c : Nat} {A : St} {s : HeapState σ}, Sim s A → Inv 15 [p] A →
    A.blk p = some ⟨c, true⟩ → 15 ≤ c + k →
    ∃ s', coalescingBlock dbg (k + 1) (addr p) s = .ok (addr (coalesce 15 k p A).1) s' ∧
      Sim s' (coalesce 15 k p A).2 ∧ SameOff (InHeaders (FreeAt A)) s.mem s'.mem ∧ s'.pg = s.pg ∧
      ∀ q, Wiped A s.mem q → Wiped (coalesce 15 k p A).2 s'.mem q
  | 0, p, c, A, s, h, hi, hb, hk =>
    ⟨s, coalescingBlock_stop dbg h hi hb (fun hc => by omega) 0, h, SameOff.refl _ _, rfl, fun _ => id⟩
  | k + 1, p, c, A, s, h, hi, hb, hk => by
    by_cases hjoin : c < 15 ∧ A.blk (buddy p c) = some ⟨c, true⟩
    · obtain ⟨hc, hb'⟩ := hjoin
      obtain ⟨s1, hs1, hsim1, hoff1, hpg1, hup⟩ := coalescingBlock_join dbg h hi hb hc hb' (k + 1)
      obtain ⟨s2, hs2, hsim2, hoff2, hpg2, hw2⟩ := coalescingBlock_run (k := k) (c := c + 1) hsim1
        (join_inv hi hb hc hb') (by simp [Buddy.join]) (by omega)
      rw [coalesce_join hb hc hb', hs1]
      refine ⟨s2, hs2, hsim2, hoff1.trans (hoff2.mono (InHeaders.mono ?_)), hpg2.trans hpg1, fun q hq => hw2 q (hq.join hoff1 hup)⟩
      rintro q ⟨c', hq⟩
      exact join_free hi hb hb' hq
    · rw [coalesce_stop hb hjoin]
      exact ⟨s, coalescingBlock_stop dbg h hi hb hjoin _, h, SameOff.refl _ _, rfl, fun _ => id⟩

/-! ## Growing the heap -/

variable {pg} in
/-- Every `mm_frame_alloc` and `mm_page_map` made for the `n` pages from `va` on succeeds. -/
def MapsAll (pg : Paging σ) : Nat → Nat → σ → Prop
  | _, 0, _ => True
  | va, n + 1, t => ∃ pa t1 t2, pg.mmFrameAlloc t = .ok (some pa) t1 ∧ pa ≠ 0 ∧
      pg.mmPageMap va pa t1 = .ok true t2 ∧ MapsAll pg (va + pageSize4K) n t2

/-- `_expand_heap` can succeed: there are addresses above the heap, and all their pages get a frame. -/
def Grows (pg : Paging σ) (s : HeapState σ) : Prop :=
  s.heapEnd + 2 ^ 27 < 2 ^ 64 ∧ MapsAll pg s.heapEnd (2 ^ 15) s.pg

theorem expandHeapLoop_run {e : Nat} : ∀ {n a : Nat} {t : σ}, e + a + n * pageSize4K < 2 ^ 64 →
    MapsAll pg (e + a) n t → ∃ t', expandHeapLoop dbg pg e n a t = .ok () t'
  | 0, _, t, _, _ => ⟨t, rfl⟩
  | n + 1, a, t, hlt, ⟨pa, t1, t2, h1, hpa, h2, h3⟩ => by
    rw [Nat.succ_mul] at hlt
    obtain ⟨t', ht'⟩ := expandHeapLoop_run (e := e) (n := n) (a := a + pageSize4K) (t := t2)
      (by omega) (by rwa [← Nat.add_assoc])
    refine ⟨t', ?_⟩
    rw [expandHeapLoop, Exec.bind_ok h1, Exec.bind_ok (kernelAssertD_pos (by rfl) dbg _ _),
      Exec.bind_ok (kernelAssertD_pos (by exact hpa) dbg _ _), u64_of_lt (by omega)]
    simp only [Option.getD_some]
    rw [Exec.bind_ok h2, Exec.bind_ok (kernelAssertD_pos rfl dbg _ _)]
    exact ht'

/-- `_expand_heap` can return: there are addresses above the heap, and its loop returns. -/
def Expands (dbg : Bool) (pg : Paging σ) (s : HeapState σ) : Prop :=
  s.heapEnd + 2 ^ 27 < 2 ^ 64 ∧ ∃ t, expandHeapLoop dbg pg s.heapEnd (2 ^ 15) 0 s.pg = .ok () t

theorem Grows.expands (h : Grows pg s) : Expands dbg pg s := by
  obtain ⟨hroom, hmaps⟩ := h
  exact ⟨hroom, expandHeapLoop_run dbg pg (by unfold pageSize4K; omega) (by simpa using hmaps)⟩

theorem expandHeap_run (h : Sim s A) (hi : Inv 15 [] A) (hf : A.free 15 = []) (hg : Expands dbg pg s) :
    ∃ s', expandHeap dbg pg s = .ok true s' ∧ Sim s' (grow 15 A) ∧
      SameOff (InHeaders (· = A.pages)) s.mem s'.mem := by
  obtain ⟨hroom, t, ht⟩ := hg
  have hc : (15 : Nat) < blockMaxClass := by decide
  have hend := hi.blk_end
  have hnl : ∀ c, A.pages ∉ A.free c := not_listed hi fun c hb => by rw [hend] at hb; cases hb
  obtain ⟨s1, hs1, hrep, hoff, hhe, hpg⟩ := freeListEnqueue_run dbg (s := { s with pg := t })
    (A := { A with pages := A.pages + 2 ^ 15 }) (p := A.pages)
    ⟨h.rep.cls, h.rep.isFree, h.rep.magic, h.rep.chain⟩ hc hnl (h.head_lt hi hc)
  rw [← h.heapEnd] at hs1
  refine ⟨{ s1 with heapEnd := s.heapEnd + 2 ^ 27 }, ?_, ⟨hrep, ?_, hroom⟩, hoff⟩
  · unfold expandHeap
    rw [Exec.bind_ok (sizeOfClass_run dbg (by decide) s),
      show 2 ^ (blockMaxClass - 1) * 4096 = 2 ^ 27 by norm_num [blockMaxClass],
      Exec.bind_ok (kernelAssertD_pos (by norm_num) dbg _ s),
      Exec.bind_ok (kernelAssertD_pos (by norm_num [pageSize4K]) dbg _ s)]
    have hempty : freeListIsEmpty dbg (blockMaxClass - 1) s = .ok true s := by
      unfold freeListIsEmpty
      rw [Exec.bind_ok (kernelAssertD_pos (by decide) dbg _ s), Exec.bind_ok (Exec.get_run s),
        show blockMaxClass - 1 = 15 from rfl, h.rep.head_nil hc hf]
      rfl
    rw [Exec.bind_ok hempty, Exec.bind_ok (kernelAssertD_pos rfl dbg _ s), Exec.bind_ok (Exec.get_run s),
      show 2 ^ 27 / pageSize4K = 2 ^ 15 by norm_num [pageSize4K], Exec.bind_ok (Exec.zoom_ok ht)]
    simp only [show blockMaxClass - 1 = 15 from rfl]
    rw [Exec.bind_ok hs1, Exec.bind_ok (Exec.modify_run _ _), hhe, u64_of_lt hroom]
    rfl
  · show s.heapEnd + 2 ^ 27 = addr (A.pages + 2 ^ 15)
    rw [h.heapEnd]; unfold addr; omega

/-! ## Cutting blocks -/

theorem freeListDequeue_pop (h : Sim s A) (hi : Inv 15 [] A) (hc : c < blockMaxClass) (hf : A.free c ≠ []) :
    ∃ s', freeListDequeue dbg c s = .ok (addr (pop c A).1) s' ∧ Sim s' (pop c A).2 ∧ s'.mem = s.mem ∧
      s'.freeList c = getNextFree s'.mem (addr (pop c A).1) := by
  obtain ⟨p, t, hf⟩ := List.exists_cons_of_ne_nil hf
  obtain ⟨s', h1, h2, h3, -, h4⟩ := freeListDequeue_cons dbg h hi hc hf
  rw [pop_eq hf]
  exact ⟨s', h1, h2, h3, by rw [h3]; exact h4⟩

/-- A block that is free stays free when another one, or itself, is cut. -/
theorem FreeAt.split {q : Nat} (h : FreeAt A q) (p c : Nat) : FreeAt (Buddy.split p c A) q := by
  obtain ⟨c', h⟩ := h
  unfold FreeAt
  simp only [Buddy.split, push, St.setFree_blk, St.setBlk_blk, Function.update_apply]
  split_ifs
  · exact ⟨c, rfl⟩
  · exact ⟨c, rfl⟩
  · exact ⟨c', h⟩

theorem splitBlock_run (h : Sim s A) (hi : Inv 15 [p] A) (hb : A.blk p = some ⟨c + 1, true⟩) (hf : A.free c = []) :
    ∃ s', splitBlock dbg (c + 1) (addr p) s = .ok () s' ∧ Sim s' (split p c A) ∧
      SameOff (InHeaders (FreeAt (split p c A))) s.mem s'.mem := by
  have hc1 : c + 1 < blockMaxClass := Nat.lt_succ_of_le (hi.clsLe hb)
  have hc : c < blockMaxClass := by omega
  have hpos : 0 < 2 ^ c := by positivity
  have h2 : 2 ^ (c + 1) = 2 ^ c + 2 ^ c := by ring
  have hlt := h.addr_lt hi hb
  have hle : 2 ^ c * 4096 ≤ 2 ^ (c + 1) * 4096 := Nat.mul_le_mul_right _ (by rw [h2]; exact Nat.le_add_left ..)
  have hlt' : addr p + 2 ^ c * 4096 < 2 ^ 64 := (Nat.add_le_add_left hle _).trans_lt hlt
  have hfl := h.rep.head_nil hc hf
  have hhi : A.blk (p + 2 ^ c) = none := hi.blk_none hb (by omega) (by omega)
  obtain ⟨s1, hs1, hrep1, hoff1, hend1, -⟩ := freeListEnqueue_run dbg (p := p) (c := c) h.rep hc
    (not_listed hi fun _ _ => by simp) (by rw [hfl]; positivity)
  have hfl1 : s1.freeList c = addr p := hrep1.head_cons hc (t := A.free c) (by simp [push])
  have hnl : ∀ c', p + 2 ^ c ∉ (push p c A).free c' := by
    intro c' hm
    have hl : Lists [] (push p c A) := push_lists hi.lists (by simp)
    have hm := (hl.mem.1 hm).1
    simp only [push, St.setFree_blk, St.setBlk_blk] at hm
    rw [Function.update_of_ne (by omega), hhi] at hm
    cases hm
  obtain ⟨s2, hs2, hrep2, hoff2, hend2, -⟩ := freeListEnqueue_run dbg (c := c) hrep1 hc hnl
    (by rw [hfl1]; omega)
  refine ⟨s2, ?_, ⟨hrep2, by rw [hend2, hend1]; exact h.heapEnd, by rw [hend2, hend1]; exact h.bound⟩, ?_⟩
  · unfold splitBlock
    simp only [Nat.add_sub_cancel]
    rw [Exec.bind_ok (sizeOfClass_run dbg hc s), Exec.bind_ok (kernelAssertD_pos (addr_ne_zero p) dbg _ s),
      Exec.bind_ok (Exec.get_run s), Exec.bind_ok (kernelAssertD_pos (h.rep.cls hb) dbg _ s),
      Exec.bind_ok (kernelAssertD_pos (by exact hfl) dbg _ s), Exec.bind_ok hs1, u64_of_lt hlt']
    have : addr p + 2 ^ c * 4096 = addr (p + 2 ^ c) := by unfold addr; omega
    rw [this]
    exact hs2
  · have hp : FreeAt (Buddy.split p c A) p := FreeAt.split ⟨_, hb⟩ p c
    have hq : FreeAt (Buddy.split p c A) (p + 2 ^ c) := ⟨c, by simp [Buddy.split, push]⟩
    exact (hoff1.mono (InHeaders.mono fun q e => e ▸ hp)).trans (hoff2.mono (InHeaders.mono fun q e => e ▸ hq))

/-- `_split_from` for class `c + 1`: a block of that class is found, cut out of a larger one or grown,
and its halves are the list of class `c`. -/
theorem splitFrom_run : ∀ {k c f : Nat} {s : HeapState σ}, c + 1 + k = 15 → k < f → Sim s A → Inv 15 [] A →
    Coalesced 15 [] A → A.free c = [] → ((∀ c', c < c' → c' ≤ 15 → A.free c' = []) → Expands dbg pg s) →
    ∃ s', splitFrom dbg pg f (c + 1) s = .ok true s' ∧
      Sim s' (split (take 15 k (c + 1) A).1 c (take 15 k (c + 1) A).2) ∧
      SameOff (InHeaders (FreeAt (split (take 15 k (c + 1) A).1 c (take 15 k (c + 1) A).2))) s.mem s'.mem
  | k, c, f + 1, s, hk, hfuel, h, hi, hco, hf, hg => by
    have hc : c + 1 < blockMaxClass := by unfold blockMaxClass; omega
    have ht := take_taken hi hco (k := k) (c := c + 1) (by omega)
    have hbelow : (take 15 k (c + 1) A).2.free c = [] := by rw [ht.below c (by omega), hf]
    -- once the block is in hand, it is cut
    have hcut : ∀ s1 : HeapState σ, Sim s1 (take 15 k (c + 1) A).2 →
        SameOff (InHeaders (FreeAt (take 15 k (c + 1) A).2)) s.mem s1.mem →
        ∃ s', splitBlock dbg (c + 1) (addr (take 15 k (c + 1) A).1) s1 = .ok () s' ∧
          Sim s' (split (take 15 k (c + 1) A).1 c (take 15 k (c + 1) A).2) ∧
          SameOff (InHeaders (FreeAt (split (take 15 k (c + 1) A).1 c (take 15 k (c + 1) A).2))) s.mem s'.mem := by
      intro s1 h1 hoff1
      obtain ⟨s', hs', hsim', hoff'⟩ := splitBlock_run dbg h1 ht.inv ht.blk hbelow
      exact ⟨s', hs', hsim', (hoff1.mono (InHeaders.mono fun q hq => hq.split _ _)).trans hoff'⟩
    rw [splitFrom, Exec.bind_ok (kernelAssertD_pos hc dbg _ s), Exec.bind_ok (kernelAssertD_pos (by omega) dbg _ s)]
    by_cases hne : A.free (c + 1) = []
    · rw [Exec.bind_ok (freeListDequeue_nil dbg h.rep hc hne), if_pos rfl]
      cases k with
      | zero =>
        -- the top class: the heap grows
        have hc14 : c = 14 := by omega
        subst hc14
        rw [take_grow hne] at hcut ⊢
        obtain ⟨s1, hs1, hsim1, hoff1⟩ := expandHeap_run dbg pg h hi hne (hg fun c' h1 h2 => by
          obtain rfl : c' = 15 := by omega
          exact hne)
        obtain ⟨s2, hs2, hsim2, hmem2, -⟩ := freeListDequeue_pop dbg hsim1 (grow_inv hi) hc (by simp [grow, push])
        obtain ⟨s3, hs3, hsim3, hoff3⟩ := hcut s2 hsim2 (by
          rw [hmem2]
          exact hoff1.mono (InHeaders.mono fun q e => ⟨15, by rw [e]; simp [pop, grow, push]⟩))
        refine ⟨s3, ?_, hsim3, hoff3⟩
        rw [if_neg (by decide), Exec.bind_ok (kernelAssertD_pos (by decide) dbg _ _), Exec.bind_ok hs1,
          Exec.bind_ok (kernelAssert_pos rfl _ _), Exec.bind_ok hs2,
          Exec.bind_ok (kernelAssertD_pos (addr_ne_zero _) dbg _ _), Exec.bind_ok hs3]
        rfl
      | succ k =>
        obtain ⟨s1, hs1, hsim1, hoff1⟩ := splitFrom_run (k := k) (c := c + 1) (f := f) (by omega) (by omega) h hi
          hco hne fun hall => hg fun c' h1 h2 => by
            by_cases e : c' = c + 1
            · exact e ▸ hne
            · exact hall c' (by omega) h2
        have ht' := take_taken hi hco (k := k) (c := c + 1 + 1) (by omega)
        rw [take_split hne] at hcut ⊢
        obtain ⟨s2, hs2, hsim2, hmem2, -⟩ := freeListDequeue_pop dbg hsim1 (split_inv ht'.inv ht'.blk) hc
          (by simp [Buddy.split, push])
        obtain ⟨s3, hs3, hsim3, hoff3⟩ := hcut s2 hsim2 (by rw [hmem2]; exact hoff1)
        refine ⟨s3, ?_, hsim3, hoff3⟩
        rw [if_pos (by unfold blockMaxClass; omega), Exec.bind_ok hs1, if_pos rfl, Exec.bind_ok hs2,
          Exec.bind_ok (kernelAssertD_pos (addr_ne_zero _) dbg _ _), Exec.bind_ok hs3]
        rfl
    · rw [take_pop hne] at hcut ⊢
      obtain ⟨s1, hs1, hsim1, hmem1, -⟩ := freeListDequeue_pop dbg h hi hc hne
      obtain ⟨s2, hs2, hsim2, hoff2⟩ := hcut s1 hsim1 (by rw [hmem1]; exact SameOff.refl _ _)
      refine ⟨s2, ?_, hsim2, hoff2⟩
      rw [Exec.bind_ok hs1, if_neg (addr_ne_zero _), Exec.bind_ok hs2]
      rfl

/-! ## The two calls -/

theorem allocCheckOut_run {len : Nat} (h : Sim s A) (hi : Inv 15 [p] A) (hb : A.blk p = some ⟨c, true⟩)
    (hlen : len + sizeofBlock ≤ 2 ^ c * 4096) :
    ∃ s', allocCheckOut dbg len c (addr p) s = .ok (addr p + sizeofBlock, 2 ^ c * 4096 - sizeofBlock) s' ∧
      Sim s' (mark p false A) ∧ SameOff (InHeaders (· = p)) s.mem s'.mem ∧ s'.freeList = s.freeList ∧
      getNextFree s'.mem (addr p) = getNextFree s.mem (addr p) := by
  obtain ⟨s', hs', hsim', hoff', -, hlists, hnext⟩ := blockCheckOut_run dbg h hi hb
  refine ⟨s', ?_, hsim', hoff', hlists, hnext⟩
  unfold allocCheckOut
  rw [Exec.bind_ok (Exec.get_run s), Exec.bind_ok (kernelAssertD_pos (h.rep.cls hb) dbg _ s),
    Exec.bind_ok (kernelAssertD_pos (addr_ne_zero p) dbg _ s), Exec.bind_ok hs',
    Exec.bind_ok (kernelAssertD_pos (by simp only; omega) dbg _ s')]
  rfl

/-- `mm_heap_alloc` of an admissible length takes a block of the smallest class that holds it out of the
heap. If no list has such a block, the heap must be able to grow. The link of the block still points to
the list it came from. -/
theorem mmHeapAlloc_run {len : Nat} (h0 : 0 < len) (hlen : len + sizeofBlock ≤ 2 ^ 27) (h : Sim s A)
    (hi : Inv 15 [] A) (hco : Coalesced 15 [] A)
    (hg : (∀ c, freeClassOf len ≤ c → c ≤ 15 → A.free c = []) → Expands dbg pg s) :
    ∃ s', mmHeapAlloc dbg pg len s = .ok (addr (alloc 15 (freeClassOf len) A).1 + sizeofBlock,
        2 ^ freeClassOf len * 4096 - sizeofBlock) s' ∧
      Sim s' (alloc 15 (freeClassOf len) A).2 ∧
      SameOff (InHeaders fun q => FreeAt (alloc 15 (freeClassOf len) A).2 q ∨ q = (alloc 15 (freeClassOf len) A).1)
        s.mem s'.mem ∧
      getNextFree s'.mem (addr (alloc 15 (freeClassOf len) A).1) = s'.freeList (freeClassOf len) := by
  obtain ⟨hc, hfit, -⟩ := freeClassOf_spec h0 hlen
  set c := freeClassOf len with hcdef
  obtain ⟨k, hk⟩ : ∃ k, 15 - c = k := ⟨_, rfl⟩
  have hck : c + k = 15 := by unfold blockMaxClass at hc; omega
  have ht := take_taken hi hco (k := k) (c := c) hck
  -- once the block is in hand, it is handed out
  have hout : ∀ s1 : HeapState σ, Sim s1 (take 15 k c A).2 →
      SameOff (InHeaders (FreeAt (take 15 k c A).2)) s.mem s1.mem →
      s1.freeList c = getNextFree s1.mem (addr (take 15 k c A).1) →
      ∃ s', allocCheckOut dbg len c (addr (take 15 k c A).1) s1 = .ok (addr (alloc 15 c A).1 + sizeofBlock,
          2 ^ c * 4096 - sizeofBlock) s' ∧ Sim s' (alloc 15 c A).2 ∧
        SameOff (InHeaders fun q => FreeAt (alloc 15 c A).2 q ∨ q = (alloc 15 c A).1) s.mem s'.mem ∧
        getNextFree s'.mem (addr (alloc 15 c A).1) = s'.freeList c := by
    intro s1 h1 hoff1 hnext1
    obtain ⟨s', hs', hsim', hoff', hlists, hnext⟩ := allocCheckOut_run dbg h1 ht.inv ht.blk hfit
    unfold alloc
    rw [hk]
    refine ⟨s', hs', hsim', (hoff1.mono (InHeaders.mono fun q hq => ?_)).trans (hoff'.mono (InHeaders.mono
      fun q hq => .inr hq)), by rw [hlists, hnext1]; exact hnext⟩
    by_cases e : q = (take 15 k c A).1
    · exact .inr e
    · obtain ⟨c', hq⟩ := hq
      exact .inl ⟨c', by rw [(mark_shape ht.inv ht.blk false).1, St.setBlk_blk, Function.update_of_ne e]; exact hq⟩
  unfold mmHeapAlloc
  rw [Exec.bind_ok (kernelAssertD_pos h0 dbg _ s), Exec.bind_ok (sizeOfClass_run dbg (by decide) s),
    show 2 ^ (blockMaxClass - 1) * 4096 = 2 ^ 27 by norm_num [blockMaxClass], u64_of_lt (by omega),
    Exec.bind_ok (kernelAssert_pos hlen _ s)]
  simp only [← hcdef]
  rw [Exec.bind_ok (kernelAssert_pos hc _ s)]
  by_cases hne : A.free c = []
  · rw [Exec.bind_ok (freeListDequeue_nil dbg h.rep hc hne), if_pos rfl]
    cases k with
    | zero =>
      have hc15 : c = 15 := by omega
      rw [take_grow hne] at hout
      obtain ⟨s1, hs1, hsim1, hoff1⟩ := expandHeap_run dbg pg h hi (hc15 ▸ hne) (hg fun c' h1 h2 => by
        obtain rfl : c' = c := by omega
        exact hne)
      obtain ⟨s2, hs2, hsim2, hmem2, hnext2⟩ := freeListDequeue_pop dbg hsim1 (grow_inv hi) hc (by simp [hc15, grow, push])
      obtain ⟨s3, hs3, hsim3, hoff3⟩ := hout s2 hsim2 (by
        rw [hmem2]
        exact hoff1.mono (InHeaders.mono fun q e => ⟨15, by rw [e]; simp [pop, grow, push]⟩)) hnext2
      refine ⟨s3, ?_, hsim3, hoff3⟩
      rw [if_neg (by unfold blockMaxClass; omega), Exec.bind_ok hs1, Exec.bind_ok (kernelAssert_pos rfl _ _),
        Exec.bind_ok hs2, Exec.bind_ok (kernelAssert_pos (addr_ne_zero _) _ _)]
      exact hs3
    | succ k =>
      obtain ⟨s1, hs1, hsim1, hoff1⟩ := splitFrom_run dbg pg (k := k) (c := c) (f := blockMaxClass) (by omega)
        (by unfold blockMaxClass; omega) h hi hco hne fun hall => hg fun c' h1 h2 => by
          by_cases e : c' = c
          · exact e ▸ hne
          · exact hall c' (by omega) h2
      have ht' := take_taken hi hco (k := k) (c := c + 1) (by omega)
      rw [take_split hne] at hout
      obtain ⟨s2, hs2, hsim2, hmem2, hnext2⟩ := freeListDequeue_pop dbg hsim1 (split_inv ht'.inv ht'.blk) hc
        (by simp [Buddy.split, push])
      obtain ⟨s3, hs3, hsim3, hoff3⟩ := hout s2 hsim2 (by rw [hmem2]; exact hoff1) hnext2
      refine ⟨s3, ?_, hsim3, hoff3⟩
      rw [if_pos (by unfold blockMaxClass; omega), Exec.bind_ok hs1, if_pos rfl, Exec.bind_ok hs2,
        Exec.bind_ok (kernelAssertD_pos (addr_ne_zero _) dbg _ _)]
      exact hs3
  · rw [take_pop hne] at hout
    obtain ⟨s1, hs1, hsim1, hmem1, hnext1⟩ := freeListDequeue_pop dbg h hi hc hne
    obtain ⟨s2, hs2, hsim2, hoff2⟩ := hout s1 hsim1 (by rw [hmem1]; exact SameOff.refl _ _) hnext1
    refine ⟨s2, ?_, hsim2, hoff2⟩
    rw [Exec.bind_ok hs1, if_neg (addr_ne_zero _)]
    exact hs2

/-- `mm_heap_free` of a block that is handed out gives it back. -/
theorem mmHeapFree_run (h : Sim s A) (hi : Inv 15 [] A) (hco : Coalesced 15 [] A) (hb : A.blk p = some ⟨c, false⟩) :
    ∃ s', mmHeapFree dbg (addr p + sizeofBlock) s = .ok () s' ∧ Sim s' (release 15 p A) ∧
      SameOff (InHeaders fun q => FreeAt A q ∨ q = p) s.mem s'.mem ∧ s'.pg = s.pg ∧
      ∀ q, Wiped A s.mem q → Wiped (release 15 p A) s'.mem q := by
  obtain ⟨hi1, hco1⟩ := mark_true hi hb hco
  have hblk : (mark p true A).blk = Function.update A.blk p (some ⟨c, true⟩) := by rw [(mark_shape hi hb true).1]; rfl
  have hb1 : (mark p true A).blk p = some ⟨c, true⟩ := by rw [hblk, Function.update_self]
  have hj := coalesce_joined (k := 15) hi1 hb1 hco1 (by omega)
  obtain ⟨c', hb', -⟩ := hj.blk
  obtain ⟨s1, hs1, hsim1, hoff1, hpg1⟩ := blockCheckIn_run dbg h hi hb
  obtain ⟨s2, hs2, hsim2, hoff2, hpg2, hw2⟩ := coalescingBlock_run dbg (k := 15) hsim1 hi1 hb1 (by omega)
  have hc' : c' < blockMaxClass := Nat.lt_succ_of_le (hj.inv.clsLe hb')
  obtain ⟨s3, hs3, hrep3, hoff3, hend3, hpg3⟩ := freeListEnqueue_run dbg hsim2.rep hc'
    (not_listed hj.inv fun _ _ => List.mem_singleton_self _) (hsim2.head_lt hj.inv hc')
  have hrel : release 15 p A = push (coalesce 15 15 p (mark p true A)).1 c' (coalesce 15 15 p (mark p true A)).2 := by
    simp only [release, hb']
  have hfree : ∀ q, FreeAt (mark p true A) q → FreeAt A q ∨ q = p := by
    rintro q ⟨c'', hq⟩
    rw [hblk, Function.update_apply] at hq
    split_ifs at hq with e
    · exact .inr e
    · exact .inl ⟨c'', hq⟩
  refine ⟨s3, ?_, ?_, ?_, hpg3.trans (hpg2.trans hpg1), fun q hq hnone => ?_⟩
  · unfold mmHeapFree
    rw [Exec.bind_ok hs1, show blockMaxClass = 15 + 1 from rfl, Exec.bind_ok hs2, Exec.bind_ok (Exec.get_run _), hsim2.rep.cls hb']
    exact hs3
  · rw [hrel]
    exact ⟨hrep3, by rw [hend3]; exact hsim2.heapEnd, by rw [hend3]; exact hsim2.bound⟩
  · refine ((hoff1.mono (InHeaders.mono fun q e => .inr e)).trans (hoff2.mono (InHeaders.mono hfree))).trans
      (hoff3.mono (InHeaders.mono fun q e => hfree q ?_))
    obtain ⟨c'', hq⟩ := hj.free hb'
    exact ⟨c'', e ▸ hq⟩
  · -- marking the block and putting it on its list leave the other headers
    have hq1 : Wiped (mark p true A) s1.mem q := by
      intro hn
      rw [hblk, Function.update_apply] at hn
      split_ifs at hn with e
      rw [getMagic_congr (sameHdr hoff1 e)]
      exact hq hn
    have hne : q ≠ (coalesce 15 15 p (mark p true A)).1 := by
      rintro rfl
      rw [hrel] at hnone
      simp [push] at hnone
    rw [hrel] at hnone
    simp only [push, St.setFree_blk, St.setBlk_blk] at hnone
    rw [Function.update_of_ne hne] at hnone
    rw [getMagic_congr (sameHdr hoff3 hne)]
    exact hw2 q hq1 hnone

/-! ## Growth the debug build has checked -/

theorem mapsAll_of_loop {e : Nat} : ∀ {n a : Nat} {t t' : σ}, e + a + n * pageSize4K < 2 ^ 64 →
    expandHeapLoop true pg e n a t = .ok () t' → MapsAll pg (e + a) n t
  | 0, _, _, _, _, _ => trivial
  | n + 1, a, t, t', hlt, h => by
    rw [Nat.succ_mul] at hlt
    rw [expandHeapLoop] at h
    obtain ⟨fr, t1, h1, k1⟩ := Exec.bind_eq_ok.1 h
    obtain ⟨_, t2, h2, k2⟩ := Exec.bind_eq_ok.1 k1
    obtain ⟨hsome, rfl⟩ := kernelAssertD_ok h2
    obtain ⟨pa, rfl⟩ := Option.isSome_iff_exists.1 hsome
    obtain ⟨_, t3, h3, k3⟩ := Exec.bind_eq_ok.1 k2
    obtain ⟨hpa, rfl⟩ := kernelAssertD_ok h3
    obtain ⟨ok, t4, h4, k4⟩ := Exec.bind_eq_ok.1 k3
    obtain ⟨_, t5, h5, k5⟩ := Exec.bind_eq_ok.1 k4
    obtain ⟨rfl, rfl⟩ := kernelAssertD_ok h5
    rw [u64_of_lt (by omega)] at h4
    exact ⟨pa, _, _, h1, hpa, h4, by rw [Nat.add_assoc]; exact mapsAll_of_loop (by omega) k5⟩

/-- Where `_expand_heap` returned, its loop did. -/
theorem expands_of_expandHeap {b : Bool} {s' : HeapState σ} (hroom : s.heapEnd + 2 ^ 27 < 2 ^ 64)
    (h : expandHeap dbg pg s = .ok b s') : Expands dbg pg s := by
  unfold expandHeap at h
  rw [Exec.bind_ok (sizeOfClass_run dbg (by decide) s),
    show 2 ^ (blockMaxClass - 1) * 4096 = 2 ^ 27 by norm_num [blockMaxClass]] at h
  obtain ⟨e, s₁, hempty, h⟩ := Exec.bind_eq_ok.1 (kernelAssertD_bind (kernelAssertD_bind h))
  obtain rfl : s = s₁ := by
    unfold freeListIsEmpty at hempty
    rw [Exec.bind_ok (kernelAssertD_pos (by decide) dbg _ s), Exec.bind_ok (Exec.get_run s)] at hempty
    cases hempty
    rfl
  have hrest := kernelAssertD_bind h
  rw [Exec.bind_ok (Exec.get_run s), show 2 ^ 27 / pageSize4K = 2 ^ 15 by norm_num [pageSize4K]] at hrest
  obtain ⟨_, s₂, hloop, -⟩ := Exec.bind_eq_ok.1 hrest
  obtain ⟨t, ht, -⟩ := Exec.zoom_eq_ok.1 hloop
  exact ⟨hroom, t, ht⟩

theorem mapsAll_of_expandHeap {b : Bool} {s' : HeapState σ} (hroom : s.heapEnd + 2 ^ 27 < 2 ^ 64)
    (h : expandHeap true pg s = .ok b s') : MapsAll pg s.heapEnd (2 ^ 15) s.pg := by
  obtain ⟨-, t, ht⟩ := expands_of_expandHeap true pg hroom h
  have := mapsAll_of_loop pg (by unfold pageSize4K; omega) ht
  simpa using this

/-- With nothing on the lists, `_split_from` goes up to the top class and grows the heap there. -/
theorem expandHeap_of_splitFrom {b : Bool} {s' : HeapState σ} : ∀ {k c f : Nat}, c + k = 15 → 0 < c → k < f →
    (∀ c', c ≤ c' → c' < blockMaxClass → s.freeList c' = 0) → splitFrom dbg pg f c s = .ok b s' →
    ∃ b' s1, expandHeap dbg pg s = .ok b' s1
  | k, c, f + 1, hk, h0, hf, hnull, h => by
    have hc : c < blockMaxClass := by unfold blockMaxClass; omega
    rw [splitFrom, Exec.bind_ok (kernelAssertD_pos hc dbg _ s), Exec.bind_ok (kernelAssertD_pos h0 dbg _ s),
      Exec.bind_ok (freeListDequeue_null dbg hc (hnull c le_rfl hc)), if_pos rfl] at h
    cases k with
    | zero =>
      rw [if_neg (by unfold blockMaxClass; omega),
        Exec.bind_ok (kernelAssertD_pos (by unfold blockMaxClass; omega) dbg _ s)] at h
      obtain ⟨b', s1, h1, -⟩ := Exec.bind_eq_ok.1 h
      exact ⟨b', s1, h1⟩
    | succ k =>
      rw [if_pos (by unfold blockMaxClass; omega)] at h
      obtain ⟨b', s1, h1, -⟩ := Exec.bind_eq_ok.1 h
      refine expandHeap_of_splitFrom (k := k) (c := c + 1) (f := f) (by omega) (by omega) (by omega) ?_ h1
      exact fun c' h1 h2 => hnull c' (by omega) h2

theorem expandHeap_of_mmHeapAlloc {len : Nat} {r : Nat × Nat} {s' : HeapState σ} (h0 : 0 < len)
    (hlen : len + sizeofBlock ≤ 2 ^ 27) (hnull : ∀ c, freeClassOf len ≤ c → c < blockMaxClass → s.freeList c = 0)
    (h : mmHeapAlloc dbg pg len s = .ok r s') : ∃ b s1, expandHeap dbg pg s = .ok b s1 := by
  obtain ⟨hc, -⟩ := freeClassOf_spec h0 hlen
  unfold mmHeapAlloc at h
  rw [Exec.bind_ok (kernelAssertD_pos h0 dbg _ s), Exec.bind_ok (sizeOfClass_run dbg (by decide) s),
    show 2 ^ (blockMaxClass - 1) * 4096 = 2 ^ 27 by norm_num [blockMaxClass], u64_of_lt (by omega),
    Exec.bind_ok (kernelAssert_pos hlen _ s), Exec.bind_ok (kernelAssert_pos hc _ s),
    Exec.bind_ok (freeListDequeue_null dbg hc (hnull _ le_rfl hc)),
    if_pos rfl] at h
  by_cases htop : freeClassOf len < blockMaxClass - 1
  · rw [if_pos htop] at h
    obtain ⟨b, s1, h1, -⟩ := Exec.bind_eq_ok.1 h
    unfold blockMaxClass at htop
    refine expandHeap_of_splitFrom dbg pg (k := 15 - (freeClassOf len + 1)) (by omega) (by omega)
      (by unfold blockMaxClass; omega) ?_ h1
    exact fun c h1 h2 => hnull c (by omega) h2
  · rw [if_neg htop] at h
    obtain ⟨b, s1, h1, -⟩ := Exec.bind_eq_ok.1 h
    exact ⟨b, s1, h1⟩

end Run

end Cing.Heap
