/-
What `mm_heap_alloc` does with the layers below: it leaves them and the end of the heap alone, unless no list
has a block for the request; then it runs the loop of `_expand_heap` once, from the state it was called in.
-/
import Cing.Mm.Heap.Size

namespace Cing.Heap

open Bytes

section Pages

variable {σ : Type} {dbg : Bool} {pg : Paging σ} {s s' : HeapState σ} {b c len : Nat} {r : Nat × Nat}

/-- The layers below and the end of the heap are as before. -/
def SamePages (s s' : HeapState σ) : Prop := s'.pg = s.pg ∧ s'.heapEnd = s.heapEnd

theorem SamePages.trans {s₁ : HeapState σ} (h : SamePages s s₁) (h' : SamePages s₁ s') : SamePages s s' :=
  ⟨h'.1.trans h.1, h'.2.trans h.2⟩

/-! ## Code that asks for no page -/

theorem kernelAssertD_state {p : Prop} [Decidable p] {expr : String} {t t' : σ} {u : Unit}
    (h : kernelAssertD dbg p expr t = .ok u t') : t' = t := by
  cases dbg with
  | false => cases h; rfl
  | true => exact (kernelAssertD_ok h).2

/-- `_free_list_dequeue` returns the head of the list, and changes nothing if there is none. -/
theorem freeListDequeue_ok (h : freeListDequeue dbg c s = .ok b s') :
    b = s.freeList c ∧ SamePages s s' ∧ (b = 0 → s' = s) := by
  unfold freeListDequeue at h
  have h := kernelAssertD_bind h
  rw [Exec.bind_ok (Exec.get_run s)] at h
  by_cases h0 : s.freeList c = 0
  · rw [if_pos h0] at h
    cases h
    exact ⟨rfl, ⟨rfl, rfl⟩, fun _ => rfl⟩
  · rw [if_neg h0] at h
    obtain ⟨_, s₁, -, h⟩ := Exec.bind_eq_ok.1 h
    have h := kernelAssertD_bind h
    cases h
    exact ⟨rfl, ⟨rfl, rfl⟩, fun e => absurd e h0⟩

theorem freeListEnqueue_samePages {u : Unit} (h : freeListEnqueue dbg b c s = .ok u s') : SamePages s s' := by
  unfold freeListEnqueue at h
  have h := kernelAssertD_bind h
  rw [Exec.bind_ok (Exec.get_run s)] at h
  obtain ⟨_, s₁, hinit, h⟩ := Exec.bind_eq_ok.1 h
  unfold blockInit at hinit
  have hinit := kernelAssertD_bind hinit
  cases hinit
  rw [Exec.bind_ok (Exec.modify_run _ _), Exec.bind_ok (Exec.get_run _)] at h
  rw [kernelAssertD_state h]
  exact ⟨rfl, rfl⟩

theorem splitBlock_samePages {u : Unit} (h : splitBlock dbg c b s = .ok u s') : SamePages s s' := by
  unfold splitBlock sizeOfClass at h
  simp only [bind_assoc] at h
  have h := kernelAssertD_bind h
  rw [pure_bind] at h
  have h := kernelAssertD_bind h
  rw [Exec.bind_ok (Exec.get_run s)] at h
  obtain ⟨_, s₁, h1, h2⟩ := Exec.bind_eq_ok.1 (kernelAssertD_bind (kernelAssertD_bind h))
  exact (freeListEnqueue_samePages h1).trans (freeListEnqueue_samePages h2)

theorem allocCheckOut_samePages (h : allocCheckOut dbg len c b s = .ok r s') : SamePages s s' := by
  unfold allocCheckOut at h
  rw [Exec.bind_ok (Exec.get_run s)] at h
  obtain ⟨a, s₁, hout, h⟩ := Exec.bind_eq_ok.1 (kernelAssertD_bind (kernelAssertD_bind h))
  have h := kernelAssertD_bind h
  cases h
  unfold blockCheckOut at hout
  have hout := kernelAssertD_bind hout
  rw [Exec.bind_ok (Exec.get_run s)] at hout
  have hout := kernelAssertD_bind (kernelAssertD_bind hout)
  rw [Exec.bind_ok (Exec.set_run _ _)] at hout
  unfold sizeOfClass at hout
  simp only [bind_assoc] at hout
  have hout := kernelAssertD_bind hout
  cases hout
  exact ⟨rfl, rfl⟩

theorem blockValidate_state {u : Unit} (h : blockValidate dbg b s = .ok u s') : s' = s := by
  unfold blockValidate at h
  have h := kernelAssertD_bind h
  rw [Exec.bind_ok (Exec.get_run s)] at h
  exact kernelAssertD_state h

theorem blockFindBuddy_state (h : blockFindBuddy dbg b s = .ok c s') : s' = s := by
  unfold blockFindBuddy sizeOfClass mmAlignDown buddyOffs at h
  have h := kernelAssertD_bind h
  rw [Exec.bind_ok (Exec.get_run s)] at h
  simp only [bind_assoc] at h
  have h := kernelAssertD_bind (kernelAssertD_bind h)
  rw [pure_bind] at h
  have h := kernelAssertD_bind h
  rw [pure_bind] at h
  have h := (kernelAssert_bind (kernelAssert_bind h).2).2
  rw [pure_bind] at h
  obtain ⟨offs, s₁, hoffs, hrest⟩ := Exec.bind_eq_ok.1 (kernelAssertD_bind h)
  obtain ⟨_, s₂, hval, hend⟩ := Exec.bind_eq_ok.1 hrest
  have hend := kernelAssertD_bind hend
  rw [Exec.pure_run] at hend
  obtain ⟨-, rfl⟩ := EStateM.Result.ok.inj hend
  refine (blockValidate_state hval).trans ?_
  split at hoffs
  · cases hoffs
    rfl
  · have hoffs := kernelAssertD_bind hoffs
    cases hoffs
    rfl

theorem dequeueBlockLoop_samePages : ∀ {n c : Nat} {s : HeapState σ} {found : Bool}, dequeueBlockLoop dbg b n c s = .ok found s' →
    SamePages s s'
  | 0, _, _, _, h => nomatch h
  | n + 1, c, s, found, h => by
    unfold dequeueBlockLoop at h
    rw [Exec.bind_ok (Exec.get_run s)] at h
    split at h
    · cases h
      exact ⟨rfl, rfl⟩
    · split at h
      · have h := kernelAssertD_bind h
        cases h
        exact ⟨rfl, rfl⟩
      · split at h
        · cases h
          exact ⟨rfl, rfl⟩
        · exact dequeueBlockLoop_samePages h

theorem freeListDequeueBlock_samePages {u : Unit} (h : freeListDequeueBlock dbg b s = .ok u s') : SamePages s s' := by
  unfold freeListDequeueBlock at h
  obtain ⟨_, s₁, hval, hrest⟩ := Exec.bind_eq_ok.1 h
  obtain rfl := blockValidate_state hval
  rw [Exec.bind_ok (Exec.get_run s₁)] at hrest
  obtain ⟨found, s₂, hloop, hfound⟩ := Exec.bind_eq_ok.1 hrest
  rw [kernelAssertD_state hfound]
  exact dequeueBlockLoop_samePages hloop

theorem coalescingBlock_samePages : ∀ {n b c : Nat} {s : HeapState σ}, coalescingBlock dbg n b s = .ok c s' → SamePages s s'
  | 0, _, _, _, h => nomatch h
  | n + 1, b, c, s, h => by
    unfold coalescingBlock at h
    obtain ⟨_, s₁, hval, hrest⟩ := Exec.bind_eq_ok.1 h
    obtain rfl := blockValidate_state hval
    rw [Exec.bind_ok (Exec.get_run s₁)] at hrest
    split at hrest
    · obtain ⟨buddy, s₂, hbuddy, hjoin⟩ := Exec.bind_eq_ok.1 hrest
      obtain rfl := blockFindBuddy_state hbuddy
      split at hjoin
      · obtain ⟨_, s₃, hdeq, hwipe⟩ := Exec.bind_eq_ok.1 hjoin
        rw [Exec.bind_ok (Exec.modify_run _ _), Exec.bind_ok (Exec.get_run _)] at hwipe
        obtain ⟨_, s₄, hinit, hnext⟩ := Exec.bind_eq_ok.1 hwipe
        unfold blockInit at hinit
        have hinit := kernelAssertD_bind hinit
        cases hinit
        obtain ⟨h1, h2⟩ := freeListDequeueBlock_samePages hdeq
        obtain ⟨h3, h4⟩ := coalescingBlock_samePages hnext
        exact ⟨h3.trans h1, h4.trans h2⟩
      · cases hjoin
        exact ⟨rfl, rfl⟩
    · cases hrest
      exact ⟨rfl, rfl⟩

/-- Freeing gives no page back. -/
theorem mmHeapFree_samePages {u : Unit} (h : mmHeapFree dbg b s = .ok u s') : SamePages s s' := by
  unfold mmHeapFree at h
  obtain ⟨blk, s₁, hin, h⟩ := Exec.bind_eq_ok.1 h
  obtain ⟨blk', s₂, hco, h⟩ := Exec.bind_eq_ok.1 h
  rw [Exec.bind_ok (Exec.get_run s₂)] at h
  have hin' : SamePages s s₁ := by
    unfold blockCheckIn at hin
    obtain ⟨_, s₃, hval, hrest⟩ := Exec.bind_eq_ok.1 hin
    obtain rfl := blockValidate_state hval
    rw [Exec.bind_ok (Exec.get_run s₃)] at hrest
    have hrest := kernelAssertD_bind hrest
    rw [Exec.bind_ok (Exec.set_run _ _), Exec.pure_run] at hrest
    obtain ⟨-, rfl⟩ := EStateM.Result.ok.inj hrest
    exact ⟨rfl, rfl⟩
  exact (hin'.trans (coalescingBlock_samePages hco)).trans (freeListEnqueue_samePages h)

/-! ## Growing once -/

/-- The loop of `_expand_heap` ran from the state `s` and returned; nothing else happened to the layers below. -/
structure Expanded (dbg : Bool) (pg : Paging σ) (s s' : HeapState σ) : Prop where
  loop : expandHeapLoop dbg pg s.heapEnd (2 ^ 15) 0 s.pg = .ok () s'.pg
  heapEnd : s'.heapEnd = u64 (s.heapEnd + 2 ^ 27)

theorem Expanded.samePages {s₁ : HeapState σ} (h : Expanded dbg pg s s₁) (h' : SamePages s₁ s') : Expanded dbg pg s s' :=
  ⟨h'.1 ▸ h.loop, h'.2.trans h.heapEnd⟩

theorem expandHeap_expanded {ok : Bool} (h : expandHeap dbg pg s = .ok ok s') : Expanded dbg pg s s' := by
  unfold expandHeap at h
  rw [Exec.bind_ok (sizeOfClass_run dbg (by decide) s),
    show 2 ^ (blockMaxClass - 1) * 4096 = 2 ^ 27 by norm_num [blockMaxClass]] at h
  have h := kernelAssertD_bind (kernelAssertD_bind h)
  unfold freeListIsEmpty at h
  simp only [bind_assoc] at h
  have h := kernelAssertD_bind h
  rw [Exec.bind_ok (Exec.get_run s), pure_bind] at h
  have h := kernelAssertD_bind h
  rw [Exec.bind_ok (Exec.get_run s), show 2 ^ 27 / pageSize4K = 2 ^ 15 by norm_num [pageSize4K]] at h
  obtain ⟨_, s₁, hzoom, h⟩ := Exec.bind_eq_ok.1 h
  obtain ⟨t, hloop, rfl⟩ := Exec.zoom_eq_ok.1 hzoom
  obtain ⟨_, s₂, hq, h⟩ := Exec.bind_eq_ok.1 h
  obtain ⟨h1, h2⟩ := freeListEnqueue_samePages hq
  cases h
  exact ⟨hloop.trans (congrArg _ (show t = s₂.pg from h1.symm)), congrArg (fun e => u64 (e + 2 ^ 27)) h2⟩

/-- A request of class `c` left the pages alone, or found all its lists empty and grew the heap. -/
def PagesAfter (dbg : Bool) (pg : Paging σ) (c : Nat) (s s' : HeapState σ) : Prop :=
  SamePages s s' ∨ (∀ k, c ≤ k → k < blockMaxClass → s.freeList k = 0) ∧ Expanded dbg pg s s'

theorem PagesAfter.samePages {s₁ : HeapState σ} (h : PagesAfter dbg pg c s s₁) (h' : SamePages s₁ s') :
    PagesAfter dbg pg c s s' :=
  h.imp (·.trans h') fun ⟨h1, h2⟩ => ⟨h1, h2.samePages h'⟩

/-- One class further down, whose list is empty too. -/
theorem PagesAfter.below (h : PagesAfter dbg pg (c + 1) s s') (h0 : s.freeList c = 0) : PagesAfter dbg pg c s s' := by
  refine h.imp_right fun ⟨h1, h2⟩ => ⟨fun k hk hk16 => ?_, h2⟩
  by_cases e : k = c
  · rw [e]; exact h0
  · exact h1 k (by omega) hk16

theorem splitFrom_pages : ∀ {fuel c : Nat} {s s' : HeapState σ} {ok : Bool}, splitFrom dbg pg fuel c s = .ok ok s' →
    PagesAfter dbg pg c s s'
  | 0, _, _, _, _, h => nomatch h
  | fuel + 1, c, s, s', ok, h => by
    unfold splitFrom at h
    obtain ⟨free, s₁, hfree, hgo⟩ := Exec.bind_eq_ok.1 (kernelAssertD_bind (kernelAssertD_bind h))
    obtain ⟨hhead, hsame, hnull⟩ := freeListDequeue_ok hfree
    by_cases h0 : free = 0
    · obtain rfl := hnull h0
      have hhead : s₁.freeList c = 0 := hhead.symm.trans h0
      rw [if_pos h0] at hgo
      by_cases hc : c + 1 < blockMaxClass
      · rw [if_pos hc] at hgo
        obtain ⟨succ, s₂, hsucc, h⟩ := Exec.bind_eq_ok.1 hgo
        rw [if_pos (splitFrom_true hsucc)] at h
        obtain ⟨free, s₃, hdeq, h⟩ := Exec.bind_eq_ok.1 h
        obtain ⟨_, s₄, hcut, h⟩ := Exec.bind_eq_ok.1 (kernelAssertD_bind h)
        cases h
        exact ((splitFrom_pages hsucc).below hhead).samePages ((freeListDequeue_ok hdeq).2.1.trans (splitBlock_samePages hcut))
      · rw [if_neg hc] at hgo
        obtain ⟨succ, s₂, hgrow, h⟩ := Exec.bind_eq_ok.1 (kernelAssertD_bind hgo)
        obtain ⟨free, s₄, hdeq, h⟩ := Exec.bind_eq_ok.1 (kernelAssert_bind h).2
        obtain ⟨_, s₅, hcut, h⟩ := Exec.bind_eq_ok.1 (kernelAssertD_bind h)
        cases h
        refine .inr ⟨fun k hk hk16 => ?_, (expandHeap_expanded hgrow).samePages
          ((freeListDequeue_ok hdeq).2.1.trans (splitBlock_samePages hcut))⟩
        obtain rfl : k = c := by omega
        exact hhead
    · rw [if_neg h0] at hgo
      obtain ⟨_, s₂, hcut, h⟩ := Exec.bind_eq_ok.1 hgo
      cases h
      exact .inl (hsame.trans (splitBlock_samePages hcut))

theorem allocWith_pages {k : Nat → HeapM σ (Nat × Nat)} (hk : ∀ {b t t' r}, k b t = .ok r t' → SamePages t t')
    (h : allocWith dbg pg c k s = .ok r s') : PagesAfter dbg pg c s s' := by
  unfold allocWith at h
  obtain ⟨free, s₁, hfree, hgo⟩ := Exec.bind_eq_ok.1 h
  obtain ⟨hhead, hsame, hnull⟩ := freeListDequeue_ok hfree
  by_cases h0 : free = 0
  · obtain rfl := hnull h0
    have hhead : s₁.freeList c = 0 := hhead.symm.trans h0
    rw [if_pos h0] at hgo
    by_cases hc : c < blockMaxClass - 1
    · rw [if_pos hc] at hgo
      obtain ⟨ok, s₂, hsplit, h⟩ := Exec.bind_eq_ok.1 hgo
      rw [if_pos (splitFrom_true hsplit)] at h
      obtain ⟨free, s₃, hdeq, h⟩ := Exec.bind_eq_ok.1 h
      exact ((splitFrom_pages hsplit).below hhead).samePages ((freeListDequeue_ok hdeq).2.1.trans (hk (kernelAssertD_bind h)))
    · rw [if_neg hc] at hgo
      obtain ⟨ok, s₂, hgrow, h⟩ := Exec.bind_eq_ok.1 hgo
      obtain ⟨free, s₄, hdeq, h⟩ := Exec.bind_eq_ok.1 (kernelAssert_bind h).2
      refine .inr ⟨fun k hk hk16 => ?_, (expandHeap_expanded hgrow).samePages
        ((freeListDequeue_ok hdeq).2.1.trans (hk (kernelAssert_bind h).2))⟩
      obtain rfl : k = c := by omega
      exact hhead
  · rw [if_neg h0] at hgo
    exact .inl (hsame.trans (hk hgo))

/-! ## Lengths of any kind -/

/-- The release build looks at the length only to find the class. -/
theorem mmHeapAlloc_release (pg : Paging σ) (len : Nat) (s : HeapState σ) :
    mmHeapAlloc false pg len s = (do
      kernelAssert (u64 (len + sizeofBlock) ≤ 2 ^ 27) sizeCheck
      kernelAssert (freeClassOf len < blockMaxClass) "free_class < _BLOCK_MAX_CLASS"
      allocWith false pg (freeClassOf len) (allocCheckOut false 1 (freeClassOf len))) s := by
  unfold mmHeapAlloc
  rw [Exec.bind_ok (kernelAssertD_release _ _ s), Exec.bind_ok (sizeOfClass_run false (by decide) s),
    show 2 ^ (blockMaxClass - 1) * 4096 = 2 ^ 27 by norm_num [blockMaxClass]]
  rfl

/-- A request that returned would have been served in the same way with an admissible length of its class. -/
theorem admissible_length (h : mmHeapAlloc dbg pg len s = .ok r s') (hlen : len < 2 ^ 64) :
    ∃ len', Admissible len' ∧ freeClassOf len' = freeClassOf len ∧ mmHeapAlloc dbg pg len' s = .ok r s' := by
  cases dbg with
  | true => exact ⟨len, admissible_of_ok h, rfl, h⟩
  | false =>
    obtain ⟨hle, hrun⟩ := kernelAssert_bind ((mmHeapAlloc_release pg len s).symm.trans h)
    -- of class 0, as one byte is
    have hsmall : freeClassOf len = 0 → ∃ len', Admissible len' ∧ freeClassOf len' = freeClassOf len ∧
        mmHeapAlloc false pg len' s = .ok r s' := by
      intro hcls
      have hcls1 : freeClassOf 1 = 0 := by decide
      refine ⟨1, admissible_one, by rw [hcls, hcls1], ?_⟩
      rw [mmHeapAlloc_release, hcls1, Exec.bind_ok (kernelAssert_pos (by decide) _ s), ← hcls]
      exact hrun
    by_cases hwrap : 2 ^ 64 ≤ len + sizeofBlock
    · exact hsmall (freeClassOf_wraps hwrap hlen).2
    · by_cases h0 : len = 0
      · exact hsmall (by rw [h0]; decide)
      · rw [u64_of_lt (by omega)] at hle
        exact ⟨len, ⟨by omega, hle⟩, rfl, h⟩

theorem mmHeapAlloc_pages (h : mmHeapAlloc dbg pg len s = .ok r s') (h0 : 0 < len) :
    PagesAfter dbg pg (freeClassOf len) s s' := by
  rw [mmHeapAlloc_eq dbg pg h0] at h
  exact allocWith_pages (fun hk => allocCheckOut_samePages hk) (kernelAssert_bind (kernelAssert_bind h).2).2

end Pages

end Cing.Heap
