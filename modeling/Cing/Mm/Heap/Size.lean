/-
The size check of `mm_heap_alloc` adds the header to the length on 64 bits. It is exact as long as the sum
does not wrap; for the last 24 lengths it does, the check passes and the request is served as one byte: by a
block too small in the release build, by a stop at a check of the debug build otherwise.
-/
import Cing.Mm.Heap.Runs

namespace Cing.Heap

open Bytes Linked Buddy Dyadic

section Code

variable {σ : Type} (dbg : Bool) (pg : Paging σ)

/-- The part of `mm_heap_alloc` behind its size check: find a block of the class and hand it to `k`. -/
def allocWith (freeClass : Nat) (k : Nat → HeapM σ (Nat × Nat)) : HeapM σ (Nat × Nat) := do
  let free ← freeListDequeue dbg freeClass
  if free = 0 then
    if freeClass < blockMaxClass - 1 then do
      let ok ← splitFrom dbg pg blockMaxClass (freeClass + 1)
      if ok then do
        let free ← freeListDequeue dbg freeClass
        kernelAssertD dbg (free ≠ 0) "free != NULL"
        k free
      else
        return (0, 0)
    else do
      let ok ← expandHeap dbg pg
      kernelAssert (ok = true) "ok"
      let free ← freeListDequeue dbg freeClass
      kernelAssert (free ≠ 0) "free != NULL"
      k free
  else
    k free

end Code

section Size

variable {σ : Type} {dbg : Bool} {pg : Paging σ} {s s' : HeapState σ} {live : List (Nat × Nat)} {len c : Nat} {r : Nat × Nat}

/-- The text of the size check. -/
def sizeCheck : String := "(len + sizeof(block_t)) <= _size_of_class(_BLOCK_MAX_CLASS - 1)"

theorem mmHeapAlloc_eq (dbg : Bool) (pg : Paging σ) (h0 : 0 < len) (s : HeapState σ) :
    mmHeapAlloc dbg pg len s = (do
      kernelAssert (u64 (len + sizeofBlock) ≤ 2 ^ 27) sizeCheck
      kernelAssert (freeClassOf len < blockMaxClass) "free_class < _BLOCK_MAX_CLASS"
      allocWith dbg pg (freeClassOf len) (allocCheckOut dbg len (freeClassOf len))) s := by
  unfold mmHeapAlloc
  rw [Exec.bind_ok (kernelAssertD_pos h0 dbg _ s), Exec.bind_ok (sizeOfClass_run dbg (by decide) s),
    show 2 ^ (blockMaxClass - 1) * 4096 = 2 ^ 27 by norm_num [blockMaxClass]]
  rfl

/-- Both checks pass. -/
theorem mmHeapAlloc_serves (dbg : Bool) (pg : Paging σ) (h0 : 0 < len) (hlen : u64 (len + sizeofBlock) ≤ 2 ^ 27)
    (hc : freeClassOf len < blockMaxClass) (s : HeapState σ) :
    mmHeapAlloc dbg pg len s = allocWith dbg pg (freeClassOf len) (allocCheckOut dbg len (freeClassOf len)) s := by
  rw [mmHeapAlloc_eq dbg pg h0, Exec.bind_ok (kernelAssert_pos hlen _ s), Exec.bind_ok (kernelAssert_pos hc _ s)]

/-- `_split_from` returns only after it has cut a block. -/
theorem splitFrom_true : ∀ {fuel c : Nat} {s s' : HeapState σ} {b : Bool}, splitFrom dbg pg fuel c s = .ok b s' → b = true
  | 0, _, _, _, _, h => nomatch h
  | fuel + 1, c, s, s', b, h => by
    unfold splitFrom at h
    obtain ⟨free, s₁, -, h⟩ := Exec.bind_eq_ok.1 (kernelAssertD_bind (kernelAssertD_bind h))
    by_cases h0 : free = 0
    · rw [if_pos h0] at h
      by_cases hc : c + 1 < blockMaxClass
      · rw [if_pos hc] at h
        obtain ⟨succ, s₂, hsucc, h⟩ := Exec.bind_eq_ok.1 h
        rw [if_pos (splitFrom_true hsucc)] at h
        obtain ⟨free, s₃, -, h⟩ := Exec.bind_eq_ok.1 h
        obtain ⟨_, s₄, -, h⟩ := Exec.bind_eq_ok.1 (kernelAssertD_bind h)
        cases h
        rfl
      · rw [if_neg hc] at h
        obtain ⟨succ, s₂, -, h⟩ := Exec.bind_eq_ok.1 (kernelAssertD_bind h)
        obtain ⟨_, s₃, -, h⟩ := Exec.bind_eq_ok.1 h
        obtain ⟨free, s₄, -, h⟩ := Exec.bind_eq_ok.1 h
        obtain ⟨_, s₅, -, h⟩ := Exec.bind_eq_ok.1 (kernelAssertD_bind h)
        cases h
        rfl
    · rw [if_neg h0] at h
      obtain ⟨_, s₂, -, h⟩ := Exec.bind_eq_ok.1 h
      cases h
      rfl

/-- Finding the block does not depend on what is done with it. -/
theorem allocWith_found {k : Nat → HeapM σ (Nat × Nat)} (h : allocWith dbg pg c k s = .ok r s') :
    ∃ free s₁, k free s₁ = .ok r s' ∧ ∀ k', allocWith dbg pg c k' s = k' free s₁ := by
  unfold allocWith at h ⊢
  obtain ⟨free, s₁, hfree, h⟩ := Exec.bind_eq_ok.1 h
  simp only [Exec.bind_ok hfree]
  by_cases h0 : free = 0
  · simp only [if_pos h0] at h ⊢
    by_cases hc : c < blockMaxClass - 1
    · simp only [if_pos hc] at h ⊢
      obtain ⟨ok, s₂, hsplit, h⟩ := Exec.bind_eq_ok.1 h
      have hok := splitFrom_true hsplit
      simp only [Exec.bind_ok hsplit]
      rw [if_pos hok] at h
      obtain ⟨free, s₃, hfree, h⟩ := Exec.bind_eq_ok.1 h
      obtain ⟨_, s₄, hchk, h⟩ := Exec.bind_eq_ok.1 h
      refine ⟨free, s₄, h, fun k' => ?_⟩
      rw [if_pos hok, Exec.bind_ok hfree, Exec.bind_ok hchk]
    · simp only [if_neg hc] at h ⊢
      obtain ⟨ok, s₂, hgrow, h⟩ := Exec.bind_eq_ok.1 h
      obtain ⟨_, s₃, hok, h⟩ := Exec.bind_eq_ok.1 h
      obtain ⟨free, s₄, hfree, h⟩ := Exec.bind_eq_ok.1 h
      obtain ⟨_, s₅, hchk, h⟩ := Exec.bind_eq_ok.1 h
      refine ⟨free, s₅, h, fun k' => ?_⟩
      rw [Exec.bind_ok hgrow, Exec.bind_ok hok, Exec.bind_ok hfree, Exec.bind_ok hchk]
  · simp only [if_neg h0] at h ⊢
    exact ⟨free, s₁, h, fun _ => rfl⟩

/-- A block that holds one byte is handed out for a longer request too, unless the last check of the debug build stops it. -/
theorem allocCheckOut_longer {free : Nat} (h : allocCheckOut dbg 1 c free s = .ok r s') (hlen : r.2 < len) :
    allocCheckOut dbg len c free s = if dbg then .error (.assertFail "(*all_len) >= len") s' else .ok r s' := by
  unfold allocCheckOut at h ⊢
  obtain ⟨_, s₁, h1, h⟩ := Exec.bind_eq_ok.1 h
  obtain ⟨_, s₂, h2, h⟩ := Exec.bind_eq_ok.1 h
  obtain ⟨_, s₃, h3, h⟩ := Exec.bind_eq_ok.1 h
  obtain ⟨a, s₄, h4, h⟩ := Exec.bind_eq_ok.1 h
  have h5 := kernelAssertD_bind h
  cases h5
  rw [Exec.bind_ok h1, Exec.bind_ok h2, Exec.bind_ok h3, Exec.bind_ok h4]
  cases dbg with
  | false => rfl
  | true => exact Exec.bind_error (kernelAssertD_neg (by omega) _ _)

/-- The last lengths wrap to a class 0 request. -/
theorem freeClassOf_wraps (hwrap : 2 ^ 64 ≤ len + sizeofBlock) (hlen : len < 2 ^ 64) :
    u64 (len + sizeofBlock) ≤ 2 ^ 27 ∧ freeClassOf len = 0 := by
  unfold sizeofBlock at hwrap
  have hu : u64 (len + sizeofBlock) = len + 24 - 2 ^ 64 := by
    unfold u64 sizeofBlock
    omega
  refine ⟨by rw [hu]; omega, ?_⟩
  unfold freeClassOf
  rw [hu]
  obtain ⟨n, hn⟩ : ∃ n, len + 24 - 2 ^ 64 = n := ⟨_, rfl⟩
  have hsmall : n < 24 := by omega
  rw [hn]
  have hall : ∀ n < 24, utilMathLog2Up n % 256 ≤ pageSizeLog4K := by decide
  simp only [if_pos (hall n hsmall)]

theorem admissible_one : Admissible 1 := by unfold Admissible sizeofBlock; omega

/-- A request whose length wraps is served as one of one byte. -/
theorem mmHeapAlloc_wraps (hwrap : 2 ^ 64 ≤ len + sizeofBlock) (hlen : len < 2 ^ 64)
    (h : mmHeapAlloc dbg pg 1 s = .ok r s') (hr : r.2 < len) :
    mmHeapAlloc dbg pg len s = if dbg then .error (.assertFail "(*all_len) >= len") s' else .ok r s' := by
  obtain ⟨hpass, hcls⟩ := freeClassOf_wraps hwrap hlen
  have hpos : 0 < len := by unfold sizeofBlock at hwrap; omega
  rw [mmHeapAlloc_serves dbg pg (by omega) (by decide) (by decide) s, show freeClassOf 1 = 0 by decide] at h
  rw [mmHeapAlloc_serves dbg pg hpos hpass (by rw [hcls]; decide) s, hcls]
  obtain ⟨free, s₁, hk, hall⟩ := allocWith_found h
  rw [hall]
  exact allocCheckOut_longer hk hr

/-- The last check of the debug build lets nothing through that does not fit the largest class. -/
theorem allocCheckOut_fits {free : Nat} (h : allocCheckOut true len c free s = .ok r s') : len + sizeofBlock ≤ 2 ^ 27 := by
  unfold allocCheckOut at h
  obtain ⟨a, s₁, hout, h⟩ := Exec.bind_eq_ok.1 (kernelAssertD_bind (kernelAssertD_bind (Exec.bind_ok (Exec.get_run s) ▸ h)))
  obtain ⟨_, s₂, hlen, h⟩ := Exec.bind_eq_ok.1 h
  have hle := (kernelAssertD_ok hlen).1
  unfold blockCheckOut at hout
  obtain ⟨_, s₃, -, hout⟩ := Exec.bind_eq_ok.1 hout
  obtain ⟨t, s₄, -, hout⟩ := Exec.bind_eq_ok.1 hout
  obtain ⟨_, s₅, hcls, hout⟩ := Exec.bind_eq_ok.1 hout
  obtain ⟨_, s₆, -, hout⟩ := Exec.bind_eq_ok.1 hout
  obtain ⟨_, s₇, -, hout⟩ := Exec.bind_eq_ok.1 hout
  have hcls := (kernelAssertD_ok hcls).1
  rw [Exec.bind_ok (sizeOfClass_run true hcls s₇)] at hout
  cases hout
  have hsz := size_lt hcls
  have hpos : 0 < 2 ^ getClass t.mem free := by positivity
  rw [u64Sub_of_le (by unfold sizeofBlock; omega) (by omega)] at hle
  unfold sizeofBlock at *
  omega

/-- In the debug build only admissible lengths are served. -/
theorem admissible_of_ok (h : mmHeapAlloc true pg len s = .ok r s') : Admissible len := by
  have h0 : 0 < len := by
    unfold mmHeapAlloc at h
    obtain ⟨_, s₁, hlen, -⟩ := Exec.bind_eq_ok.1 h
    exact (kernelAssertD_ok hlen).1
  rw [mmHeapAlloc_eq true pg h0] at h
  obtain ⟨free, s₁, hk, -⟩ := allocWith_found (kernelAssert_bind (kernelAssert_bind h).2).2
  exact ⟨h0, allocCheckOut_fits hk⟩

/-- Lower layers that grant every page. -/
def grantingPaging (σ : Type) : Paging σ where
  mmFrameAlloc := pure (some pageSize4K)
  mmPageMap := fun _ _ => pure true

theorem mapsAll_granting : ∀ (n va : Nat) (t : σ), MapsAll (grantingPaging σ) va n t
  | 0, _, _ => trivial
  | n + 1, va, t => ⟨pageSize4K, t, t, rfl, by decide, rfl, mapsAll_granting n _ t⟩

/-- A pointer that is returned has room for the request, and a request that does not fit the largest class is stopped by the size
check, which both builds have, whatever the lower layers do. -/
def SizeRespected (dbg : Bool) (pg : Paging σ) (len : Nat) (s : HeapState σ) : Prop :=
  (∀ a s', mmHeapAlloc dbg pg len s = .ok a s' → a.1 ≠ 0 → len ≤ a.2) ∧
    (2 ^ 27 < len + sizeofBlock → ∀ pg' : Paging σ, mmHeapAlloc dbg pg' len s = .error (.assertFail sizeCheck) s)

/-- If no list holds a block for the request, there are addresses for the heap to grow. -/
def AddressesFor (len : Nat) (s : HeapState σ) : Prop :=
  (∀ c, freeClassOf len ≤ c → c < blockMaxClass → s.freeList c = 0) → s.heapEnd + 2 ^ 27 < 2 ^ 64

/-- In both builds and from every reached state, `mm_heap_alloc` respects the size of a request exactly if the length and the header
together do not wrap. -/
theorem size_respected_iff (h : Reach dbg pg s live) (h0 : 0 < len) (hlen : len < 2 ^ 64) (hr : AddressesFor len s) :
    SizeRespected dbg pg len s ↔ len + sizeofBlock < 2 ^ 64 := by
  obtain ⟨A, hA⟩ := h.good
  constructor
  · rintro ⟨-, hstop⟩
    by_contra hwrap
    have hwrap : 2 ^ 64 ≤ len + sizeofBlock := by omega
    -- over layers that grant every page, a request of one byte returns
    have hcls : freeClassOf 1 = freeClassOf len := by rw [(freeClassOf_wraps hwrap hlen).2]; decide
    have hg : GrowsFor (grantingPaging σ) 1 s := fun hnull => ⟨hr (hcls ▸ hnull), mapsAll_granting _ _ _⟩
    obtain ⟨s', hs', hgood, -⟩ := hA.alloc_run dbg admissible_one hg
    have hsmall : (payload (Buddy.alloc 15 (freeClassOf 1) A).1 (freeClassOf 1)).2 < len := by
      rw [show freeClassOf 1 = 0 by decide]
      unfold sizeofBlock at hwrap
      simp only [payload]
      omega
    have hrun := mmHeapAlloc_wraps hwrap hlen hs' hsmall
    rw [hstop (by omega) (grantingPaging σ)] at hrun
    cases dbg <;> simp [sizeCheck] at hrun
  · intro hfit
    have hu : u64 (len + sizeofBlock) = len + sizeofBlock := u64_of_lt hfit
    have hover : 2 ^ 27 < len + sizeofBlock → ∀ pg' : Paging σ, mmHeapAlloc dbg pg' len s = .error (.assertFail sizeCheck) s := by
      intro hbig pg'
      rw [mmHeapAlloc_eq dbg pg' h0]
      exact Exec.bind_error (kernelAssert_neg (by omega) _ s)
    refine ⟨fun a s' hs' _ => ?_, hover⟩
    by_cases hbig : 2 ^ 27 < len + sizeofBlock
    · rw [hover hbig pg] at hs'
      cases hs'
    · have hadm : Admissible len := ⟨h0, by omega⟩
      obtain ⟨s₁, hs₁, -, hle, -⟩ := hA.alloc_expands dbg hadm fun hnull => by
        obtain ⟨b, s₂, hgrow⟩ := expandHeap_of_mmHeapAlloc dbg pg hadm.1 hadm.2 hnull hs'
        exact expands_of_expandHeap dbg pg (hr hnull) hgrow
      rw [hs'] at hs₁
      cases hs₁
      exact hle

theorem boot_release : ∃ s, Reach false countingPaging s [] ∧ s.heapEnd = va48Heap :=
  ⟨_, .boot (s := ⟨fun _ => 0, fun _ => 0, 0, 0⟩) rfl, rfl⟩

theorem addressesFor_empty {s : HeapState Nat} (hend : s.heapEnd = va48Heap) (len : Nat) : AddressesFor len s :=
  fun _ => by rw [hend, va48Heap_eq]; norm_num

theorem size_respected_iff_page : ∃ s, Reach false countingPaging s [] ∧ SizeRespected false countingPaging 4072 s := by
  obtain ⟨s, h, hend⟩ := boot_release
  exact ⟨s, h, (size_respected_iff h (by decide) (by decide) (addressesFor_empty hend 4072)).2 (by decide)⟩

/-- Asked for all of the address space but the last byte, the release build returns a block of one page. -/
theorem size_not_respected : ∃ s a s', Reach false countingPaging s [] ∧ AddressesFor (2 ^ 64 - 1) s ∧
    mmHeapAlloc false countingPaging (2 ^ 64 - 1) s = .ok a s' ∧ a.1 ≠ 0 ∧ a.2 = 4072 ∧
    ¬ SizeRespected false countingPaging (2 ^ 64 - 1) s := by
  obtain ⟨s, h, hend⟩ := boot_release
  obtain ⟨A, hA⟩ := h.good
  have hg : GrowsFor countingPaging 1 s := growsFor_counting (by rw [hend, va48Heap_eq]; norm_num)
  obtain ⟨s', hs', -⟩ := hA.alloc_run false admissible_one hg
  rw [show freeClassOf 1 = 0 by decide] at hs'
  obtain ⟨a, ha⟩ : ∃ a, payload (Buddy.alloc 15 0 A).1 0 = a := ⟨_, rfl⟩
  rw [ha] at hs'
  have hlen : a.2 = 4072 := by rw [← ha]; rfl
  have hpos : a.1 ≠ 0 := by
    rw [← ha]
    simp only [payload]
    unfold sizeofBlock
    omega
  have hwrap : 2 ^ 64 ≤ 2 ^ 64 - 1 + sizeofBlock := by unfold sizeofBlock; omega
  have hrun := mmHeapAlloc_wraps hwrap (by omega) hs' (by omega)
  refine ⟨s, a, s', h, addressesFor_empty hend _, hrun, hpos, hlen, fun hsize => ?_⟩
  have := hsize.1 a s' hrun hpos
  omega

end Size

end Cing.Heap
