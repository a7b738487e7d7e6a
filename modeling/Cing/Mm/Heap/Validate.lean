/-
The check of the heap that the self tests run, `_heap_validate`. It means to go from header to header by the
size of each block, but it adds that size to a `block_t *`, which counts headers and not bytes: the second
header it looks at is 24 sizes ahead. So it sees the heap as it is only before the heap has grown, and while
the heap is one block of the top class, of which 24 sizes lead past the end.
-/
import Cing.Mm.Heap.Runs
import Cing.Mm.Align

namespace Cing.Heap

open Bytes Linked Buddy Dyadic

section Code

variable {σ : Type} (dbg : Bool)

/-- The loop of `_heap_validate` from `blk` on, at most `n` rounds, where the pointer counts in units of
`unit` bytes; the blocks it looks at, in order. -/
def heapValidateLoop (unit : Nat) : Nat → Nat → HeapM σ (List Nat)
  | 0, _ => throw .hang
  | n + 1, blk => do
    let s ← get
    if blk < s.heapEnd then
      kernelAssert (mmAlignCheck blk pageSize4K) "mm_align_check((uptr_t)blk, PAGE_SIZE_VALUE_4K)"
      blockValidate dbg blk
      let size ← sizeOfClass dbg (getClass s.mem blk)
      let r ← u64Mod (u64Sub blk va48Heap) size
      kernelAssert (r = 0) "mm_align_check((uptr_t)blk - VA_48_HEAP, size)"
      let rest ← heapValidateLoop unit n (u64 (blk + unit * size))
      return blk :: rest
    else return []

/-- `_heap_validate`: `blk + size` on a `block_t *`. -/
def heapValidate (n : Nat) : HeapM σ (List Nat) := heapValidateLoop dbg sizeofBlock n va48Heap

/-- `_heap_validate` ends without a failed assertion, and the blocks it looked at are those of the heap. -/
def Validates (s : HeapState σ) : Prop := ∃ n bs, heapValidate dbg n s = .ok bs s ∧ Walk dbg s va48Heap bs

end Code

section Loop

variable {σ : Type} (dbg : Bool) {pg : Paging σ} {s : HeapState σ} {live : List (Nat × Nat)} {A : St} {p c : Nat} {f : Bool}

theorem addr_zero : addr 0 = va48Heap := rfl

/-- One round at a block. -/
theorem Good.validate_step (h : Good s live A) (hb : A.blk p = some ⟨c, f⟩) (unit n : Nat) :
    heapValidateLoop dbg unit (n + 1) (addr p) s =
      (heapValidateLoop dbg unit n (u64 (addr p + unit * (2 ^ c * 4096))) >>= fun rest => pure (addr p :: rest)) s := by
  have hpos : 0 < 2 ^ c := by positivity
  have hlt := h.sim.addr_lt h.inv hb
  have hend : addr p < s.heapEnd := by
    have := h.inv.lt hb
    rw [h.sim.heapEnd]
    unfold addr
    omega
  have hc : c < blockMaxClass := Nat.lt_succ_of_le (h.inv.clsLe hb)
  have hoff : u64Sub (addr p) va48Heap = p * 4096 := by
    rw [u64Sub_of_le (by unfold addr; omega) (by omega)]
    unfold addr
    omega
  have hmod : u64Mod (p * 4096) (2 ^ c * 4096) s = .ok 0 s := by
    unfold u64Mod
    rw [if_neg (by omega), Nat.mod_eq_zero_of_dvd (Nat.mul_dvd_mul_right (h.inv.dvd hb) 4096)]
    rfl
  rw [heapValidateLoop, Exec.bind_ok (Exec.get_run s), if_pos hend, Exec.bind_ok (kernelAssert_pos (addr_align p) _ s),
    Exec.bind_ok (blockValidate_run dbg h.sim.rep hb), h.sim.rep.cls hb, Exec.bind_ok (sizeOfClass_run dbg hc s), hoff,
    Exec.bind_ok hmod, Exec.bind_ok (kernelAssert_pos rfl _ s)]

/-- At the end of the heap or past it the loop is over. -/
theorem validate_end {blk : Nat} (hend : s.heapEnd ≤ blk) (unit n : Nat) : heapValidateLoop dbg unit (n + 1) blk s = .ok [] s := by
  rw [heapValidateLoop, Exec.bind_ok (Exec.get_run s), if_neg (Nat.not_lt.2 hend)]
  rfl

/-- A loop that looked at a block looked first at the one it started from. -/
theorem validate_head {unit n blk b : Nat} {bs : List Nat} {s' : HeapState σ}
    (h : heapValidateLoop dbg unit n blk s = .ok (b :: bs) s') :
    b = blk := by
  cases n with
  | zero => cases h
  | succ n =>
    rw [heapValidateLoop, Exec.bind_ok (Exec.get_run s)] at h
    split at h
    · obtain ⟨-, s₁, -, h⟩ := Exec.bind_eq_ok.1 h
      obtain ⟨-, s₁, -, h⟩ := Exec.bind_eq_ok.1 h
      obtain ⟨size, s₁, -, h⟩ := Exec.bind_eq_ok.1 h
      obtain ⟨r, s₁, -, h⟩ := Exec.bind_eq_ok.1 h
      obtain ⟨-, s₁, -, h⟩ := Exec.bind_eq_ok.1 h
      obtain ⟨rest, s₁, -, h⟩ := Exec.bind_eq_ok.1 h
      cases h
      rfl
    · cases h

/-- Counting bytes, the loop looks at the blocks of the heap, each once and in order. -/
theorem Good.validate_walk (h : Good s live A) : ∀ {bs : List Nat} {p : Nat}, Walk dbg s (addr p) bs →
    (∀ b ∈ bs, ∃ q k, A.blk q = some k ∧ b = addr q) → heapValidateLoop dbg 1 (bs.length + 1) (addr p) s = .ok bs s
  | [], _, hw, _ => validate_end dbg (Nat.le_of_eq hw.symm) 1 0
  | b :: bs, p, ⟨hbp, _, n, hn, hw⟩, hbs => by
    obtain ⟨q, ⟨c, f⟩, hb, hq⟩ := hbs b (List.mem_cons_self ..)
    obtain rfl : q = p := addr_inj (hq.symm.trans hbp)
    have hlt := h.sim.addr_lt h.inv hb
    have hc : c < blockMaxClass := Nat.lt_succ_of_le (h.inv.clsLe hb)
    rw [h.sim.rep.cls hb, sizeOfClass_run dbg hc s] at hn
    cases hn
    have hnext : addr q + 2 ^ c * 4096 = addr (q + 2 ^ c) := by unfold addr; omega
    rw [hnext] at hw
    rw [hbp, h.validate_step dbg hb, Nat.one_mul, u64_of_lt hlt, hnext]
    exact Exec.bind_ok (h.validate_walk hw fun b' hb' => hbs b' (List.mem_cons_of_mem _ hb'))

end Loop

section Reach

variable {σ : Type} {dbg : Bool} {pg : Paging σ} {s : HeapState σ} {live : List (Nat × Nat)} {A : St} {c : Nat} {f : Bool}

/-- A heap that is one block is one block of the top class: it grows by whole ones. -/
theorem Good.one_block (h : Good s live A) (hb : A.blk 0 = some ⟨c, f⟩) (hone : A.pages = 2 ^ c) : c = 15 := by
  have hdvd : 2 ^ 15 ∣ 2 ^ c := hone ▸ h.inv.pages
  have htop : 15 ≤ c := (Nat.pow_dvd_pow_iff_le_right (by omega)).1 hdvd
  exact Nat.le_antisymm (h.inv.clsLe hb) htop

/-- On one block of the top class the check looks at it and is past the end. -/
theorem Good.validates_top (dbg : Bool) (h : Good s live A) (hb : A.blk 0 = some ⟨15, f⟩) (hone : A.pages = 2 ^ 15) :
    Validates dbg s := by
  have hend : s.heapEnd = va48Heap + 2 ^ 27 := by
    rw [h.sim.heapEnd, hone]
    unfold addr
    omega
  have hlt : va48Heap < s.heapEnd := by omega
  have hsize := sizeOfClass_run dbg (c := 15) (by decide) s
  have hstep := h.validate_step dbg hb sizeofBlock 1
  have hnext : va48Heap + sizeofBlock * 2 ^ 27 < 2 ^ 64 := by rw [va48Heap_eq]; norm_num [sizeofBlock]
  have hpast : s.heapEnd ≤ va48Heap + sizeofBlock * 2 ^ 27 := by unfold sizeofBlock; omega
  rw [show 2 ^ 15 * 4096 = 2 ^ 27 by norm_num] at hsize hstep
  rw [addr_zero, u64_of_lt hnext] at hstep
  refine ⟨2, [va48Heap], ?_, rfl, hlt, 2 ^ 27, ?_, hend.symm⟩
  · rw [heapValidate, hstep]
    exact Exec.bind_ok (validate_end dbg hpast sizeofBlock 0)
  · rw [← addr_zero, h.sim.rep.cls hb]
    exact hsize

/-- After a block of class `c` the pointer is 24 sizes ahead: a second block is missed. -/
theorem Good.one_of_validates (dbg : Bool) (h : Good s live A) (hb : A.blk 0 = some ⟨c, f⟩) (hv : Validates dbg s) :
    A.pages = 2 ^ c := by
  obtain ⟨n, bs, hrun, hw⟩ := hv
  have hva := va48Heap_eq
  have hc : c < blockMaxClass := Nat.lt_succ_of_le (h.inv.clsLe hb)
  have hsize := size_lt hc
  have hpos : 0 < 2 ^ c := by positivity
  cases n with
  | zero => cases hrun
  | succ n =>
    rw [heapValidate, ← addr_zero, h.validate_step dbg hb, u64_of_lt (by unfold addr sizeofBlock; omega)] at hrun
    obtain ⟨rest, s₁, hrest, hrun⟩ := Exec.bind_eq_ok.1 hrun
    cases hrun
    obtain ⟨-, -, size, hn, hw⟩ := hw
    rw [← addr_zero, h.sim.rep.cls hb, sizeOfClass_run dbg hc s] at hn
    cases hn
    cases rest with
    | nil =>
      have hlast : va48Heap + 2 ^ c * 4096 = s.heapEnd := hw
      rw [h.sim.heapEnd] at hlast
      unfold addr at hlast
      omega
    | cons b t =>
      -- the second block starts one size ahead, and the loop looks 24 sizes ahead
      have hnext : b = va48Heap + 2 ^ c * 4096 := hw.1
      have hlook := validate_head dbg hrest
      unfold addr sizeofBlock at hlook
      omega

theorem Good.validates (dbg : Bool) (h : Good s live A) :
    Validates dbg s ↔ A.pages = 0 ∨ A.pages = 2 ^ 15 ∧ ∃ f, A.blk 0 = some ⟨15, f⟩ := by
  constructor
  · intro hv
    rcases Nat.eq_zero_or_pos A.pages with h0 | hpages
    · exact .inl h0
    obtain ⟨c, hcls⟩ := h.inv.tiling.first hpages
    obtain ⟨f, hb⟩ := St.blk_of_cls hcls
    have hone := h.one_of_validates dbg hb hv
    obtain rfl := h.one_block hb hone
    exact .inr ⟨hone, f, hb⟩
  · rintro (h0 | ⟨hone, f, hb⟩)
    · have hend : s.heapEnd = va48Heap := by rw [h.sim.heapEnd, h0, addr_zero]
      exact ⟨1, [], validate_end dbg hend.le sizeofBlock 0, hend.symm⟩
    · exact h.validates_top dbg hb hone

/-- What the loop is after: counting bytes, as splitting a block does, it would look at the blocks of the heap
in every reached state. -/
theorem validate_by_bytes (h : Reach dbg pg s live) :
    ∃ bs, heapValidateLoop dbg 1 (bs.length + 1) va48Heap s = .ok bs s ∧ Walk dbg s va48Heap bs := by
  obtain ⟨A, h⟩ := h.good
  obtain ⟨bs, hw, hbs⟩ := h.walk dbg
  refine ⟨bs, ?_, hw⟩
  rw [← addr_zero] at hw ⊢
  exact h.validate_walk dbg hw fun b hb => (hbs b).1 hb

/-- In a reached state `_heap_validate` looks at each block of the heap, once and in order, if and only if
the heap has not grown yet, or is one block of the top class. -/
theorem heap_validate_iff (h : Reach dbg pg s live) :
    Validates dbg s ↔ s.heapEnd = va48Heap ∨ s.heapEnd = va48Heap + 2 ^ 27 ∧ getClass s.mem va48Heap = blockMaxClass - 1 := by
  obtain ⟨A, h⟩ := h.good
  have hend := h.sim.heapEnd
  have hempty : s.heapEnd = va48Heap ↔ A.pages = 0 := by rw [hend]; unfold addr; omega
  have hone : s.heapEnd = va48Heap + 2 ^ 27 ↔ A.pages = 2 ^ 15 := by rw [hend]; unfold addr; omega
  rw [h.validates dbg, hempty, hone]
  refine or_congr_right (and_congr_right fun hpages => ?_)
  constructor
  · rintro ⟨f, hb⟩
    rw [← addr_zero]
    exact h.sim.rep.cls hb
  · intro htop
    obtain ⟨c, hcls⟩ := h.inv.tiling.first (by omega)
    obtain ⟨f, hb⟩ := St.blk_of_cls hcls
    rw [← addr_zero, h.sim.rep.cls hb] at htop
    rw [htop] at hb
    exact ⟨f, hb⟩

/-- A request for the largest block on the heap that was just booted: the heap is that block. -/
theorem heap_validate_iff_top : ∃ s a, Reach true countingPaging s [a] ∧ s.heapEnd = va48Heap + 2 ^ 27 ∧ Validates true s := by
  obtain ⟨s, h₀, hend⟩ := reach_boot
  obtain ⟨A, h⟩ := h₀.good
  have hlen : Admissible (2 ^ 27 - sizeofBlock) := by unfold Admissible sizeofBlock; omega
  have hg : GrowsFor countingPaging (2 ^ 27 - sizeofBlock) s := growsFor_counting (by rw [hend, va48Heap_eq]; norm_num)
  obtain ⟨p, s', A', hs', h', hb, -, -, -, hle⟩ := h.alloc true hlen hg
  rw [show freeClassOf (2 ^ 27 - sizeofBlock) = 15 by decide] at hb
  have hp := h'.inv.lt hb
  have hend' := h'.sim.heapEnd
  rw [hend, hend'] at hle
  unfold addr at hle hend'
  have htop : s'.heapEnd = va48Heap + 2 ^ 27 := by omega
  obtain rfl : p = 0 := by omega
  have hcls : getClass s'.mem va48Heap = blockMaxClass - 1 := h'.sim.rep.cls hb
  have hreach := h₀.alloc hlen hg hs'
  exact ⟨s', _, hreach, htop, (heap_validate_iff hreach).2 (.inr ⟨htop, hcls⟩)⟩

/-- One request of 100 bytes on the heap that was just booted: the heap is cut into blocks, and the second is
missed. -/
theorem heap_validate_skips : ∃ s a s', Reach true countingPaging s [] ∧ s.heapEnd = va48Heap ∧
    mmHeapAlloc true countingPaging 100 s = .ok a s' ∧ Reach true countingPaging s' [a] ∧ ¬ Validates true s' := by
  obtain ⟨s, h₀, hend⟩ := reach_boot
  obtain ⟨A, h⟩ := h₀.good
  have hg : GrowsFor countingPaging 100 s := growsFor_counting (by rw [hend, va48Heap_eq]; norm_num)
  obtain ⟨p, s', A', hs', h', hb, -⟩ := h.alloc true admissible_100 hg
  refine ⟨s, _, s', h₀, hend, hs', h₀.alloc admissible_100 hg hs', fun hv => ?_⟩
  rw [show freeClassOf 100 = 0 by decide] at hb
  have hp := h'.inv.lt hb
  rcases (h'.validates true).1 hv with hnone | ⟨hone, f, htop⟩
  · omega
  · obtain rfl : p = 0 := h'.inv.tiling.start_unique (St.cls_of_blk htop) (St.cls_of_blk hb) (Nat.zero_le p) (by omega)
    rw [hb] at htop
    cases htop

end Reach

end Cing.Heap
