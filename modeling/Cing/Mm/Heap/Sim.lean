/-
mm_heap.c carries out the buddy system. `Rep` relates the headers and links in memory to the blocks
and free lists of a `Buddy.St`; each function of the heap that meets a represented state returns,
leaves a representation of the state the buddy system goes to, and writes block headers only.
-/
import Cing.Lib.Linked
import Cing.Lib.Buddy
import Cing.Mm.Heap.Header

namespace Cing.Heap

open Bytes Linked Buddy Dyadic

/-! ## The representation -/

/-- Every block has its header in memory, and the list of each class is linked from its head. -/
structure Rep (m : Mem) (fl : Nat → Nat) (A : St) : Prop where
  cls : ∀ {p c f}, A.blk p = some ⟨c, f⟩ → getClass m (addr p) = c
  isFree : ∀ {p c f}, A.blk p = some ⟨c, f⟩ → getIsFree m (addr p) = f
  magic : ∀ {p c f}, A.blk p = some ⟨c, f⟩ → getMagic m (addr p) = blockMagic
  chain : ∀ c < blockMaxClass, Chain 0 (getNextFree m) (fl c) ((A.free c).map addr)

/-- The heap state represents `A`, which fits into the address space. -/
structure Sim {σ : Type} (s : HeapState σ) (A : St) : Prop where
  rep : Rep s.mem s.freeList A
  heapEnd : s.heapEnd = addr A.pages
  bound : s.heapEnd < 2 ^ 64

variable {m m' : Mem} {fl : Nat → Nat} {A : St} {p c : Nat}

theorem Rep.head_nil (h : Rep m fl A) (hc : c < blockMaxClass) (hf : A.free c = []) : fl c = 0 := by
  have := h.chain c hc
  rwa [hf] at this

theorem Rep.head_cons (h : Rep m fl A) (hc : c < blockMaxClass) {t : List Nat} (hf : A.free c = p :: t) :
    fl c = addr p := by
  have := h.chain c hc
  rw [hf] at this
  exact this.1

/-- A change inside the header of a block that is on no list changes that block only. -/
theorem Rep.setBlk (h : Rep m fl A) (hm : SameOff (InHeaders (· = p)) m m') (hnl : ∀ c, p ∉ A.free c)
    (b : Option Blk) (hb : ∀ c f, b = some ⟨c, f⟩ →
      getClass m' (addr p) = c ∧ getIsFree m' (addr p) = f ∧ getMagic m' (addr p) = blockMagic) :
    Rep m' fl (A.setBlk p b) := by
  have hcase : ∀ {q c f}, (A.setBlk p b).blk q = some ⟨c, f⟩ →
      (q = p ∧ b = some ⟨c, f⟩) ∨ (q ≠ p ∧ A.blk q = some ⟨c, f⟩) := by
    intro q c f hq
    simp only [St.setBlk_blk, Function.update_apply] at hq
    split_ifs at hq with e
    · exact .inl ⟨e, hq⟩
    · exact .inr ⟨e, hq⟩
  refine ⟨?_, ?_, ?_, ?_⟩
  · intro q c f hq
    rcases hcase hq with ⟨rfl, he⟩ | ⟨hne, hq⟩
    · exact (hb c f he).1
    · rw [getClass_congr (sameHdr hm hne)]; exact h.cls hq
  · intro q c f hq
    rcases hcase hq with ⟨rfl, he⟩ | ⟨hne, hq⟩
    · exact (hb c f he).2.1
    · rw [getIsFree_congr (sameHdr hm hne)]; exact h.isFree hq
  · intro q c f hq
    rcases hcase hq with ⟨rfl, he⟩ | ⟨hne, hq⟩
    · exact (hb c f he).2.2
    · rw [getMagic_congr (sameHdr hm hne)]; exact h.magic hq
  · intro c hc
    refine (h.chain c hc).congr fun a ha => ?_
    obtain ⟨q, hq, rfl⟩ := List.mem_map.1 ha
    exact getNextFree_congr (sameHdr hm fun e => hnl c (e ▸ hq))

/-- A block whose link is the head of a list becomes the new head. -/
theorem Rep.cons (h : Rep m fl A) (hn : getNextFree m (addr p) = fl c) :
    Rep m (Function.update fl c (addr p)) (A.setFree c (p :: A.free c)) := by
  refine ⟨h.cls, h.isFree, h.magic, fun c' hc' => ?_⟩
  simp only [St.setFree_free]
  by_cases e : c' = c
  · subst e
    rw [Function.update_self, Function.update_self, List.map_cons]
    exact ⟨rfl, addr_ne_zero p, hn ▸ h.chain c' hc'⟩
  · rw [Function.update_of_ne e, Function.update_of_ne e]
    exact h.chain c' hc'

/-- The list of one class follows a change of its links and head. -/
theorem Rep.setFree {l : List Nat} (h : Rep m fl A) {h' : Nat}
    (hl : c < blockMaxClass → Chain 0 (getNextFree m) h' (l.map addr)) :
    Rep m (Function.update fl c h') (A.setFree c l) := by
  refine ⟨h.cls, h.isFree, h.magic, fun c' hc' => ?_⟩
  simp only [St.setFree_free]
  by_cases e : c' = c
  · subst e
    rw [Function.update_self, Function.update_self]
    exact hl hc'
  · rw [Function.update_of_ne e, Function.update_of_ne e]
    exact h.chain c' hc'

/-! ## The block functions -/

section Run

variable {σ : Type} (dbg : Bool) (pg : Paging σ) {s : HeapState σ}

theorem Sim.addr_lt (h : Sim s A) {hand : List Nat} (hi : Inv 15 hand A) {f : Bool} (hb : A.blk p = some ⟨c, f⟩) :
    addr p + 2 ^ c * 4096 < 2 ^ 64 := by
  have h1 := hi.lt hb
  have h2 := h.bound
  rw [h.heapEnd] at h2
  have h3 : 4096 * (p + 2 ^ c) ≤ 4096 * A.pages := Nat.mul_le_mul_left _ h1
  unfold addr at *
  omega

/-- Every list head is a 64-bit value. -/
theorem Sim.head_lt (h : Sim s A) {hand : List Nat} (hi : Inv 15 hand A) (hc : c < blockMaxClass) :
    s.freeList c < 2 ^ 64 := by
  cases hf : A.free c with
  | nil => rw [h.rep.head_nil hc hf]; positivity
  | cons p t =>
    rw [h.rep.head_cons hc hf]
    have := h.addr_lt hi (hi.lists.mem.1 (by rw [hf]; exact List.mem_cons_self ..)).1
    omega

theorem blockValidate_run {f : Bool} (h : Rep s.mem s.freeList A) (hb : A.blk p = some ⟨c, f⟩) :
    blockValidate dbg (addr p) s = .ok () s := by
  unfold blockValidate
  rw [Exec.bind_ok (kernelAssertD_pos (addr_align p) dbg _ s), Exec.bind_ok (Exec.get_run s)]
  exact kernelAssertD_pos (h.magic hb) dbg _ s

theorem freeListDequeue_null (hc : c < blockMaxClass) (h0 : s.freeList c = 0) :
    freeListDequeue dbg c s = .ok 0 s := by
  unfold freeListDequeue
  rw [Exec.bind_ok (kernelAssertD_pos hc dbg _ s), Exec.bind_ok (Exec.get_run s)]
  simp only [h0, if_true]
  rfl

theorem freeListDequeue_nil (h : Rep s.mem s.freeList A) (hc : c < blockMaxClass) (hf : A.free c = []) :
    freeListDequeue dbg c s = .ok 0 s := freeListDequeue_null dbg hc (h.head_nil hc hf)

theorem freeListDequeue_cons (h : Sim s A) (hi : Inv 15 [] A) (hc : c < blockMaxClass) {t : List Nat}
    (hf : A.free c = p :: t) :
    ∃ s', freeListDequeue dbg c s = .ok (addr p) s' ∧ Sim s' (A.setFree c t) ∧ s'.mem = s.mem ∧ s'.pg = s.pg ∧
      s'.freeList c = getNextFree s.mem (addr p) := by
  have hb := hi.head hf
  have hch := h.rep.chain c hc
  rw [hf] at hch
  refine ⟨{ s with freeList := Function.update s.freeList c (getNextFree s.mem (addr p)) }, ?_,
    ⟨h.rep.setFree fun _ => hch.2.2, h.heapEnd, h.bound⟩, rfl, rfl, Function.update_self ..⟩
  unfold freeListDequeue
  rw [Exec.bind_ok (kernelAssertD_pos hc dbg _ s), Exec.bind_ok (Exec.get_run s)]
  simp only [h.rep.head_cons hc hf, addr_ne_zero, if_false]
  rw [Exec.bind_ok (blockValidate_run dbg h.rep hb),
    Exec.bind_ok (kernelAssertD_pos (h.rep.head_cons hc hf ▸ h.rep.cls hb) dbg _ s)]
  rfl

/-- `_free_list_enqueue` makes a block of the pages at `p` and puts it on its list. -/
theorem freeListEnqueue_run (h : Rep s.mem s.freeList A) (hc : c < blockMaxClass) (hnl : ∀ c, p ∉ A.free c)
    (hlt : s.freeList c < 2 ^ 64) :
    ∃ s', freeListEnqueue dbg (addr p) c s = .ok () s' ∧ Rep s'.mem s'.freeList (push p c A) ∧
      SameOff (InHeaders (· = p)) s.mem s'.mem ∧ s'.heapEnd = s.heapEnd ∧ s'.pg = s.pg := by
  have h256 : c < 256 := by unfold blockMaxClass at hc; omega
  have hoff := initHdr_sameOff s.mem p c true (s.freeList c)
  refine ⟨{ s with
    mem := initHdr s.mem (addr p) c true (s.freeList c)
    freeList := Function.update s.freeList c (addr p) }, ?_, ?_, hoff, rfl, rfl⟩
  · unfold freeListEnqueue blockInit
    rw [Exec.bind_ok (kernelAssertD_pos hc dbg _ s), Exec.bind_ok (Exec.get_run s)]
    simp only [bind_assoc]
    rw [Exec.bind_ok (kernelAssertD_pos (addr_align p) dbg _ s), Exec.bind_ok (Exec.modify_run _ s),
      Exec.bind_ok (Exec.modify_run _ _), Exec.bind_ok (Exec.get_run _)]
    exact kernelAssertD_pos (getClass_initHdr s.mem (addr p) h256 true _) dbg _ _
  · refine Rep.cons (h.setBlk hoff hnl _ ?_) (getNextFree_initHdr _ _ _ _ hlt)
    rintro c' f e
    injection e with e; injection e with e1 e2
    subst e1; subst e2
    exact ⟨getClass_initHdr _ _ h256 _ _, getIsFree_initHdr _ _ _ _ _, getMagic_initHdr _ _ _ _ _⟩

/-- A block in hand, or handed out, is on no list. -/
theorem not_listed {hand : List Nat} (hi : Inv 15 hand A) (h : ∀ c, A.blk p = some ⟨c, true⟩ → p ∈ hand) :
    ∀ c, p ∉ A.free c := by
  intro c hp
  obtain ⟨hb, hn⟩ := hi.lists.mem.1 hp
  exact hn (h c hb)

/-- Flipping `is_free` of a block on no list marks the block. -/
theorem setIsFree_rep {hand : List Nat} {f : Bool} (h : Rep s.mem s.freeList A) (hi : Inv 15 hand A)
    (hb : A.blk p = some ⟨c, f⟩) (hnl : ∀ c, p ∉ A.free c) (g : Bool) :
    Rep (setIsFree s.mem (addr p) g) s.freeList (mark p g A) := by
  rw [(mark_shape hi hb g).1]
  refine h.setBlk (setIsFree_sameOff s.mem p g) hnl _ ?_
  intro c' f' e
  injection e with e; injection e with e1 e2
  subst e1; subst e2
  exact ⟨(getClass_setIsFree ..).trans (h.cls hb), getIsFree_setIsFree .., (getMagic_setIsFree ..).trans (h.magic hb)⟩

theorem blockCheckOut_run (h : Sim s A) (hi : Inv 15 [p] A) (hb : A.blk p = some ⟨c, true⟩) :
    ∃ s', blockCheckOut dbg (addr p) s = .ok (addr p + sizeofBlock, 2 ^ c * 4096 - sizeofBlock) s' ∧
      Sim s' (mark p false A) ∧ SameOff (InHeaders (· = p)) s.mem s'.mem ∧ s'.pg = s.pg ∧ s'.freeList = s.freeList ∧
      getNextFree s'.mem (addr p) = getNextFree s.mem (addr p) := by
  have hc : c < blockMaxClass := Nat.lt_succ_of_le (hi.clsLe hb)
  have hlt := h.addr_lt hi hb
  have hsz := size_lt hc
  have hpos : 0 < 2 ^ c := by positivity
  refine ⟨{ s with mem := setIsFree s.mem (addr p) false }, ?_, ⟨?_, h.heapEnd, h.bound⟩,
    setIsFree_sameOff s.mem p false, rfl, rfl, getNextFree_setIsFree _ _ false⟩
  · unfold blockCheckOut
    rw [Exec.bind_ok (kernelAssertD_pos (addr_align p) dbg _ s), Exec.bind_ok (Exec.get_run s),
      Exec.bind_ok (kernelAssertD_pos (by rw [h.rep.cls hb]; exact hc) dbg _ s),
      Exec.bind_ok (kernelAssertD_pos (h.rep.isFree hb) dbg _ s), Exec.bind_ok (Exec.set_run _ _), h.rep.cls hb,
      Exec.bind_ok (sizeOfClass_run dbg hc _), u64_of_lt (by unfold sizeofBlock; omega),
      u64Sub_of_le (by unfold sizeofBlock; omega) (by omega)]
    rfl
  · exact setIsFree_rep h.rep hi hb (not_listed hi fun _ _ => by simp) false

theorem blockCheckIn_run (h : Sim s A) (hi : Inv 15 [] A) (hb : A.blk p = some ⟨c, false⟩) :
    ∃ s', blockCheckIn dbg (addr p + sizeofBlock) s = .ok (addr p) s' ∧ Sim s' (mark p true A) ∧
      SameOff (InHeaders (· = p)) s.mem s'.mem ∧ s'.pg = s.pg := by
  have hlt := h.addr_lt hi hb
  have hpos : 0 < 2 ^ c := by positivity
  refine ⟨{ s with mem := setIsFree s.mem (addr p) true }, ?_, ⟨?_, h.heapEnd, h.bound⟩,
    setIsFree_sameOff s.mem p true, rfl⟩
  · unfold blockCheckIn
    rw [u64Sub_of_le (by omega) (by unfold sizeofBlock; omega), Nat.add_sub_cancel,
      Exec.bind_ok (blockValidate_run dbg h.rep hb), Exec.bind_ok (Exec.get_run s),
      Exec.bind_ok (kernelAssertD_pos (h.rep.isFree hb) dbg _ s)]
    rfl
  · exact setIsFree_rep h.rep hi hb (not_listed hi fun c' hb' => by rw [hb] at hb'; cases hb') true

/-- `_block_find_buddy` finds the block at the buddy's position. -/
theorem blockFindBuddy_run {hand : List Nat} {f : Bool} (h : Sim s A) (hi : Inv 15 hand A)
    (hb : A.blk p = some ⟨c, f⟩) (hc : c < 15) :
    blockFindBuddy dbg (addr p) s = .ok (addr (buddy p c)) s := by
  have hc16 : c < blockMaxClass := by unfold blockMaxClass; omega
  have hlt := h.addr_lt hi hb
  have hd := hi.dvd hb
  have hsz : 2 ^ c * 4096 ≤ 2 ^ 27 := size_lt hc16
  have hpos : 0 < 2 ^ c := by positivity
  obtain ⟨c', f', hb', hc'⟩ := hi.buddy_blk hb hc
  have hlt' := h.addr_lt hi hb'
  have hheap := va48Heap_eq
  -- the offset of the block from the heap's start, its base and its offset in that base
  have hx : u64Sub (addr p) va48Heap = 4096 * p := by
    rw [u64Sub_of_le (by unfold addr; omega) (by omega)]; unfold addr; omega
  have hbase : 4096 * p / 2 ^ 27 * 2 ^ 27 = 4096 * (p / 2 ^ 15 * 2 ^ 15) := by
    rw [show (2 ^ 27 : Nat) = 4096 * 2 ^ 15 by norm_num, Nat.mul_div_mul_left _ _ (by norm_num)]; ring
  have hoffs : u64Sub (4096 * p) (4096 * (p / 2 ^ 15 * 2 ^ 15)) = 4096 * (p % 2 ^ 15) := by
    rw [u64Sub_of_le (by omega) (by unfold addr at hlt; omega)]; omega
  obtain ⟨k, hk, hk2⟩ := block_offset hd hc
  obtain ⟨hodd, heven⟩ := buddy_offset (c := c) (k := k) hc (by omega)
  have hbud : ∃ b, buddyOffs dbg (4096 * (p % 2 ^ 15)) (2 ^ c * 4096) s = .ok b s ∧
      u64 (u64 (b + 4096 * (p / 2 ^ 15 * 2 ^ 15)) + va48Heap) = addr (buddy p c) := by
    unfold buddyOffs
    have hexp : 2 ^ c * 4096 * k = 4096 * (p % 2 ^ 15) := hk.symm
    rw [hk]
    by_cases hp : p / 2 ^ c % 2 = 0
    · rw [if_neg (by rw [hodd]; omega), Exec.bind_ok (kernelAssertD_pos (heven (by omega)) dbg _ s)]
      refine ⟨_, rfl, ?_⟩
      unfold buddy at hlt' ⊢
      rw [if_pos hp] at hlt' ⊢
      unfold addr at hlt hlt' ⊢
      rw [u64_of_lt (n := 2 ^ c * 4096 * k + 2 ^ c * 4096) (by omega),
        u64_of_lt (n := 2 ^ c * 4096 * k + 2 ^ c * 4096 + 4096 * (p / 2 ^ 15 * 2 ^ 15)) (by omega),
        u64_of_lt (by omega)]
      omega
    · have hk1 : k % 2 = 1 := by omega
      have hle : 2 ^ c * 4096 ≤ 2 ^ c * 4096 * k := Nat.le_mul_of_pos_right _ (by omega)
      rw [if_pos (hodd.2 hk1)]
      refine ⟨_, rfl, ?_⟩
      rw [u64Sub_of_le hle (by omega)]
      unfold buddy
      rw [if_neg hp]
      have hple : 2 ^ c ≤ p := Nat.le_of_dvd (by omega) hd
      unfold addr at hlt ⊢
      rw [u64_of_lt (n := 2 ^ c * 4096 * k - 2 ^ c * 4096 + 4096 * (p / 2 ^ 15 * 2 ^ 15)) (by omega),
        u64_of_lt (by omega)]
      omega
  obtain ⟨b, hb1, hb2⟩ := hbud
  unfold blockFindBuddy
  rw [Exec.bind_ok (kernelAssertD_pos (addr_align p) dbg _ s), Exec.bind_ok (Exec.get_run s),
    Exec.bind_ok (kernelAssertD_pos (by rw [h.rep.cls hb]; exact hc16) dbg _ s), h.rep.cls hb,
    Exec.bind_ok (sizeOfClass_run dbg hc16 s), Exec.bind_ok (sizeOfClass_run dbg (by decide) s), hx,
    show 2 ^ (blockMaxClass - 1) * 4096 = 2 ^ 27 by norm_num [blockMaxClass],
    Exec.bind_ok (mmAlignDown_run (by unfold addr at hlt; omega) (by norm_num) s), hbase, hoffs]
  simp only
  rw [Exec.bind_ok (kernelAssertD_pos ?_ dbg _ s), Exec.bind_ok hb1, hb2,
    Exec.bind_ok (blockValidate_run dbg h.rep hb'), Exec.bind_ok (kernelAssertD_pos ?_ dbg _ s)]
  · rfl
  · rw [h.rep.cls hb']; exact hc'
  · unfold mmAlignCheck
    rw [hk, Nat.mul_mod_right]; rfl

end Run

end Cing.Heap
