/-
A pointer freed twice. After the first free the block is free, alone or inside a larger block; joining wipes
the header of the upper half. So at the old pointer there is the header of a free block or none at all, and
one of the two assertions of `_block_check_in` fails, as long as nothing was allocated in between.
-/
import Cing.Mm.Heap.Runs

namespace Cing.Heap

open Bytes Linked Buddy Dyadic

section DoubleFree

variable {σ : Type} {dbg : Bool} {pg : Paging σ} {s s' s₁ s₂ : HeapState σ} {live live' live₂ : List (Nat × Nat)}
    {A : St} {p q c : Nat}

/-- Frees of live pointers and writes of the users inside their payloads. -/
inductive Frees (dbg : Bool) (s : HeapState σ) (live : List (Nat × Nat)) : HeapState σ → List (Nat × Nat) → Prop
  | refl : Frees dbg s live s live
  | free {s₁ s₂ : HeapState σ} {live₁ : List (Nat × Nat)} {a : Nat × Nat} : Frees dbg s live s₁ live₁ → a ∈ live₁ →
      mmHeapFree dbg a.1 s₁ = .ok () s₂ → Frees dbg s live s₂ (live₁.erase a)
  | write {s₁ : HeapState σ} {live₁ : List (Nat × Nat)} {x : Nat} {v : UInt8} : Frees dbg s live s₁ live₁ → InPayload live₁ x →
      Frees dbg s live { s₁ with mem := put s₁.mem x v } live₁

/-- A page of the heap that lies in no block handed out; if no block starts there, there is no valid header. -/
structure GivenBack (A : St) (m : Mem) (p : Nat) : Prop where
  inside : p < A.pages
  outside : ∀ q c, A.blk q = some ⟨c, false⟩ → p < q ∨ q + 2 ^ c ≤ p
  wiped : Wiped A m p

theorem Good.free_wiped (h : Good s live A) (hb : A.blk q = some ⟨c, false⟩) (hs : mmHeapFree dbg (payload q c).1 s = .ok () s') :
    Good s' (live.erase (payload q c)) (release 15 q A) ∧ ∀ p, Wiped A s.mem p → Wiped (release 15 q A) s'.mem p := by
  obtain ⟨s₁, hs₁, h₁, -⟩ := h.free_run dbg hb
  obtain ⟨s₂, hs₂, -, -, -, hw⟩ := mmHeapFree_run dbg h.sim h.inv h.coalesced hb
  rw [hs] at hs₁
  cases hs₁
  rw [show mmHeapFree dbg (addr q + sizeofBlock) s = .ok () s' from hs] at hs₂
  cases hs₂
  exact ⟨h₁, hw⟩

/-- The page of the block that is freed. -/
theorem GivenBack.first (h : Good s live A) (hb : A.blk p = some ⟨c, false⟩) (hs : mmHeapFree dbg (payload p c).1 s = .ok () s') :
    Good s' (live.erase (payload p c)) (release 15 p A) ∧ GivenBack (release 15 p A) s'.mem p := by
  obtain ⟨h₁, hw⟩ := h.free_wiped hb hs
  have hr := release_released h.inv h.coalesced hb
  have hlt := h.inv.lt hb
  have hpos : 0 < 2 ^ c := by positivity
  refine ⟨h₁, by rw [hr.pages]; omega, fun q c' hq => ?_, hw p fun hn => by rw [hb] at hn; cases hn⟩
  obtain ⟨hq, hne⟩ := hr.live.1 hq
  rcases h.inv.disjoint hb hq hne.symm with h | h <;> omega

/-- Freeing another block. -/
theorem GivenBack.free (hg : GivenBack A s.mem p) (h : Good s live A) (hb : A.blk q = some ⟨c, false⟩)
    (hs : mmHeapFree dbg (payload q c).1 s = .ok () s') :
    Good s' (live.erase (payload q c)) (release 15 q A) ∧ GivenBack (release 15 q A) s'.mem p := by
  obtain ⟨h₁, hw⟩ := h.free_wiped hb hs
  have hr := release_released h.inv h.coalesced hb
  exact ⟨h₁, by rw [hr.pages]; exact hg.inside, fun r c' hr' => hg.outside r c' (hr.live.1 hr').1, hw p hg.wiped⟩

/-- Writing inside a payload. -/
theorem GivenBack.write (hg : GivenBack A s.mem p) (h : Good s live A) {m : Mem} (hm : SameOff (InPayload live) s.mem m) :
    GivenBack A m p := by
  refine ⟨hg.inside, hg.outside, fun hn => ?_⟩
  have hhdr : SameHdr s.mem m p := by
    intro i hi
    refine hm _ ?_
    rintro ⟨a, ha, h1, h2⟩
    obtain ⟨q, c, hq, rfl⟩ := h.owned.1 ha
    have hout := hg.outside q c hq
    rw [payload_end] at h2
    simp only [payload] at h1
    unfold addr sizeofBlock at *
    omega
  rw [getMagic_congr hhdr]
  exact hg.wiped hn

/-- Every run of frees and writes keeps the page given back. -/
theorem Frees.givenBack (hf : Frees dbg s live s' live') (h : Good s live A) (hg : GivenBack A s.mem p) :
    ∃ A', Good s' live' A' ∧ GivenBack A' s'.mem p := by
  induction hf with
  | refl => exact ⟨A, h, hg⟩
  | free _ ha hs ih =>
    obtain ⟨A₁, h₁, hg₁⟩ := ih
    obtain ⟨q, c, hb, rfl⟩ := h₁.owned.1 ha
    exact ⟨_, hg₁.free h₁ hb hs⟩
  | write _ hx ih =>
    obtain ⟨A₁, h₁, hg₁⟩ := ih
    exact ⟨A₁, h₁.write (sameOff_put hx), hg₁.write h₁ (sameOff_put hx)⟩

/-- The assertions of `_block_check_in` catch a page that was given back, before anything is written. -/
theorem blockCheckIn_stops (h : Good s live A) (hg : GivenBack A s.mem p) :
    ∃ expr, blockCheckIn true (addr p + sizeofBlock) s = .error (.assertFail expr) s := by
  have hbound := h.sim.bound
  have hp := hg.inside
  rw [h.sim.heapEnd] at hbound
  have hblock : u64Sub (addr p + sizeofBlock) sizeofBlock = addr p := by
    unfold addr at hbound ⊢
    rw [u64Sub_of_le (by omega) (by unfold sizeofBlock; omega), Nat.add_sub_cancel]
  unfold blockCheckIn blockValidate
  rw [hblock]
  simp only [bind_assoc]
  rw [Exec.bind_ok (kernelAssertD_pos (addr_align p) true _ s), Exec.bind_ok (Exec.get_run s)]
  cases hb : A.blk p with
  | none =>
    rw [Exec.bind_error (kernelAssertD_neg (hg.wiped hb) _ s)]
    exact ⟨_, rfl⟩
  | some b =>
    obtain ⟨c, f⟩ := b
    have hfree : f = true := by
      by_contra hf
      have := hg.outside p c (by rw [hb, Bool.eq_false_iff.2 hf])
      have hpos : 0 < 2 ^ c := by positivity
      omega
    subst hfree
    rw [Exec.bind_ok (kernelAssertD_pos (h.sim.rep.magic hb) true _ s), Exec.bind_ok (Exec.get_run s),
      Exec.bind_error (kernelAssertD_neg (by rw [h.sim.rep.isFree hb]; decide) _ s)]
    exact ⟨_, rfl⟩

/-- In the debug build a second `mm_heap_free` of a pointer stops at an assertion of `_block_check_in`, whatever other pointers were
freed since, and leaves the heap as it was. -/
theorem double_free_caught (h : Reach true pg s live) {a : Nat × Nat} (ha : a ∈ live) (hs : mmHeapFree true a.1 s = .ok () s₁)
    (hf : Frees true s₁ (live.erase a) s₂ live₂) :
    ∃ expr, blockCheckIn true a.1 s₂ = .error (.assertFail expr) s₂ ∧ mmHeapFree true a.1 s₂ = .error (.assertFail expr) s₂ := by
  obtain ⟨A, h⟩ := h.good
  obtain ⟨p, c, hb, rfl⟩ := h.owned.1 ha
  obtain ⟨h₁, hg₁⟩ := GivenBack.first h hb hs
  obtain ⟨A₂, h₂, hg₂⟩ := hf.givenBack h₁ hg₁
  obtain ⟨expr, hstop⟩ := blockCheckIn_stops h₂ hg₂
  refine ⟨expr, hstop, ?_⟩
  unfold mmHeapFree
  exact Exec.bind_error hstop

theorem double_free_caught_first : ∃ s a s₁ expr, Reach true countingPaging s [a] ∧ mmHeapFree true a.1 s = .ok () s₁ ∧
    mmHeapFree true a.1 s₁ = .error (.assertFail expr) s₁ := by
  obtain ⟨s, a, h, s₁, hs₁, -⟩ := reach_alloc_free
  obtain ⟨expr, -, hstop⟩ := double_free_caught h (List.mem_singleton_self a) hs₁ .refl
  exact ⟨s, a, s₁, expr, h, hs₁, hstop⟩

end DoubleFree

end Cing.Heap
