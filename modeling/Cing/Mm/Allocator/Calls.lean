/-
Each function of mm_allocator.c on a state that satisfies the invariant: it returns, keeps the invariant
with the ghost state it stands for, and the assertions on its way hold. The one assertion that can
fail is the last one of a request that fills the rest of the current area exactly.
-/
import Cing.Mm.Allocator.Arena

namespace Cing.Allocator

open Bytes Linked
open Heap (Apart InPayload)

section Calls

variable {σ : Type} {dbg : Bool} {pg : Paging σ} {s : AllState σ} {objs F : List Nat} {regions : Nat → List Region}
  {live carves : List (Nat × Nat)} {areas : Nat → List (Nat × Nat)} {A : Buddy.St}

theorem poke_run (a v : Nat) (s : AllState σ) :
    poke a v s = .ok () { s with heap := { s.heap with mem := store s.heap.mem a 8 v } } := rfl

theorem onHeap_run {α : Type} {x : HeapM σ α} {a : α} {hs : HeapState σ} (h : x s.heap = .ok a hs) :
    onHeap x s = .ok a { s with heap := hs } := Exec.zoom_ok h

/-- Words of live heap allocations keep their value when the payloads do. -/
theorem word_same {m m' : Mem} {a : Nat × Nat} (hm : ∀ x, InPayload live x → m' x = m x) (ha : a ∈ live) {w : Nat}
    (h1 : a.1 ≤ w) (h2 : w + 8 ≤ a.1 + a.2) : word m' w = word m w :=
  load_congr fun x h3 h4 => hm x ⟨a, ha, by omega, by omega⟩

theorem AreaWord.bounds {a : Nat × Nat} {w : Nat} (hw : AreaWord a w) (h1 : a.1 % 8 = 0) (h2 : a.2 % 8 = 0)
    (hlen : 4072 ≤ a.2) : w % 8 = 0 ∧ a.1 ≤ w ∧ w + 8 ≤ a.1 + a.2 := by
  unfold AreaWord at hw; omega

/-- The books keep when all payloads of heap allocations do. -/
theorem Books.of_payloads {freeAlls : Nat} {F' : List Nat} {hs : HeapState σ} {m m' : Mem}
    (h : Books dbg m freeAlls objs F regions areas) (hF : ∀ o ∈ F, o ∈ F') (hl : Layout live carves objs F' areas)
    (hg : Heap.Good hs live A) (hm : ∀ x, InPayload live x → m' x = m x) :
    Books dbg m' freeAlls objs F regions areas := by
  refine h.congr (fun o ho => ?_) (fun o ho => ?_) fun o ho a ha w hw => ?_
  · obtain ⟨c, -, hc, ⟨i, hi⟩, h2, -⟩ := hl.object_spec hg (.inl (hF o ho))
    exact word_same hm hc (by omega) (by omega)
  · obtain ⟨c, -, hc, ⟨i, hi⟩, h2, -⟩ := hl.object_spec hg (.inr ho)
    exact word_same hm hc (by omega) (by omega)
  · obtain ⟨h1, h2, h3, -⟩ := hg.payload_spec (hl.area_live ho ha)
    obtain ⟨-, h4, h5⟩ := hw.bounds h1 h2 h3
    exact word_same hm (hl.area_live ho ha) h4 h5

/-! ## A new area -/

/-- The memory after `_allocator_new_area` wrote the area, before it links it. -/
def areaMem (m : Mem) (a : Nat × Nat) (o prev : Nat) : Mem :=
  store (store (store (store (store m a.1 8 (a.1 + sizeofArea)) (a.1 + a.2 - 8) 8 o) (a.1 + 8) 8 (a.2 - 40))
    (a.1 + 16) 8 0) (a.1 + 24) 8 prev

theorem word_areaMem {m : Mem} {a : Nat × Nat} {o prev w : Nat} (h1 : a.1 % 8 = 0) (h2 : a.2 % 8 = 0)
    (hlen : 4072 ≤ a.2) (hlt : a.1 + a.2 < 2 ^ 64) (ho : o < 2 ^ 64) (hp : prev < 2 ^ 64) (hw : w % 8 = 0) :
    word (areaMem m a o prev) w = if w = a.1 + 24 then prev else if w = a.1 + 16 then 0 else
      if w = a.1 + 8 then a.2 - 40 else if w = a.1 + a.2 - 8 then o else if w = a.1 then a.1 + sizeofArea else
      word m w := by
  unfold areaMem sizeofArea
  rw [word_poke (by omega) hw hp, word_poke (by omega) hw (by omega), word_poke (by omega) hw (by omega),
    word_poke (by omega) hw ho, word_poke h1 hw (by omega)]

/-- The area is written inside itself. -/
theorem sameOff_areaMem {a : Nat × Nat} (hlen : 4072 ≤ a.2) (m : Mem) (o prev : Nat) :
    SameOff (fun x => a.1 ≤ x ∧ x < a.1 + a.2) m (areaMem m a o prev) := by
  have hword : ∀ {m : Mem} {w v : Nat}, a.1 ≤ w → w + 8 ≤ a.1 + a.2 →
      SameOff (fun x => a.1 ≤ x ∧ x < a.1 + a.2) m (store m w 8 v) :=
    fun h1 h2 => sameOff_store fun x k1 k2 => ⟨by omega, by omega⟩
  unfold areaMem
  refine ((((hword ?_ ?_).trans (hword ?_ ?_)).trans (hword ?_ ?_)).trans (hword ?_ ?_)).trans (hword ?_ ?_) <;> omega

/-- The new heap allocation is an area of the allocator. -/
theorem Layout.addArea (hl : Layout live carves objs F areas) {o : Nat} {a : Nat × Nat} (ho : o ∈ objs)
    (hnew : a ∉ live) : Layout (a :: live) carves objs F (Function.update areas o (a :: areas o)) := by
  have hcase : ∀ {o' x}, x ∈ Function.update areas o (a :: areas o) o' ↔ (o' = o ∧ x = a) ∨ x ∈ areas o' := by
    intro o' x
    by_cases e : o' = o
    · subst e; rw [Function.update_self, List.mem_cons]; tauto
    · rw [Function.update_of_ne e]; tauto
  have hna : ∀ {o'}, o' ∈ objs → a ∉ areas o' := fun h1 h2 => hnew (hl.area_live h1 h2)
  refine ⟨fun {x} => ?_, hl.carveLen, hl.object, hl.nodup, fun {o'} h1 => ?_, fun {o₁ o₂ x} h1 h2 h3 h4 => ?_,
    fun {o' x} h1 h2 => ?_⟩
  · rw [List.mem_cons, hl.live]
    constructor
    · rintro (rfl | h1 | ⟨o', h1, h2⟩)
      · exact .inr ⟨o, ho, hcase.2 (.inl ⟨rfl, rfl⟩)⟩
      · exact .inl h1
      · exact .inr ⟨o', h1, hcase.2 (.inr h2)⟩
    · rintro (h1 | ⟨o', h1, h2⟩)
      · exact .inr (.inl h1)
      · rcases hcase.1 h2 with ⟨-, rfl⟩ | h2
        · exact .inl rfl
        · exact .inr (.inr ⟨o', h1, h2⟩)
  · by_cases e : o' = o
    · subst e
      rw [Function.update_self]
      exact List.nodup_cons.2 ⟨hna h1, hl.areasNodup h1⟩
    · rw [Function.update_of_ne e]; exact hl.areasNodup h1
  · rcases hcase.1 h3 with ⟨e₁, rfl⟩ | h3' <;> rcases hcase.1 h4 with ⟨e₂, e⟩ | h4'
    · rw [e₁, e₂]
    · exact absurd h4' (hna h2)
    · exact absurd (e ▸ h3') (hna h1)
    · exact hl.owner h1 h2 h3' h4'
  · rcases hcase.1 h2 with ⟨-, rfl⟩ | h2
    · exact fun hc => hnew (hl.live.2 (.inl hc))
    · exact hl.notCarve h1 h2

/-- The state after `_allocator_new_area`, given the heap after its `mm_heap_alloc`. -/
def withArea (s : AllState σ) (hs : HeapState σ) (a : Nat × Nat) (o : Nat) : AllState σ :=
  { s with heap := { hs with mem := store (areaMem hs.mem a o (word s.heap.mem o)) o 8 a.1 } }

theorem Inv.addArea (h : Inv dbg s objs regions live carves F areas A) {o : Nat} {a : Nat × Nat} {hs : HeapState σ}
    {A' : Buddy.St} (ho : o ∈ objs) (hg : Heap.Good hs (a :: live) A')
    (hsame : ∀ x, InPayload live x → hs.mem x = s.heap.mem x) :
    Inv dbg (withArea s hs a o) objs regions (a :: live) carves F (Function.update areas o (a :: areas o)) A' ∧
      getUseLen (withArea s hs a o).heap.mem a.1 = 0 ∧ getList (withArea s hs a o).heap.mem o = a.1 := by
  obtain ⟨h1, h2, h3, h4, h5, h6, -⟩ := hg.payload_spec (List.mem_cons_self ..)
  have hnew : a ∉ live := (List.nodup_cons.1 hg.nodup).1
  have hl := h.layout.addArea ho hnew
  have hin : a ∈ Function.update areas o (a :: areas o) o := by rw [Function.update_self]; exact List.mem_cons_self ..
  obtain ⟨c, -, hc, ⟨i, hi⟩, hce, ho8, ho0, ho64⟩ := hl.object_spec hg (.inr ho)
  -- the objects and the old areas lie outside the new area
  have hobj : ∀ {o'}, o' ∈ F ∨ o' ∈ objs → o' % 8 = 0 ∧ (o' + 16 ≤ a.1 ∨ a.1 + a.2 ≤ o') := by
    intro o' ho'
    obtain ⟨-, -, -, -, -, h8, -⟩ := hl.object_spec hg ho'
    have := hl.object_area_apart hg ho' ho hin
    unfold Heap.Apart at this
    exact ⟨h8, by simpa using this⟩
  have hold : ∀ o' ∈ objs, ∀ b ∈ areas o', ∀ w, AreaWord b w →
      w % 8 = 0 ∧ (w + 8 ≤ a.1 ∨ a.1 + a.2 ≤ w) ∧ (w + 8 ≤ o ∨ o + 16 ≤ w) := by
    intro o' ho' b hb w hbw
    have hbl := h.layout.area_live ho' hb
    obtain ⟨k1, k2, k3, -⟩ := h.heap.payload_spec hbl
    obtain ⟨k4, k5, k6⟩ := hbw.bounds k1 k2 k3
    have k7 := hg.apart_of_ne (List.mem_cons_self ..) (List.mem_cons_of_mem _ hbl) (fun e => hnew (e ▸ hbl))
    have k8 := h.layout.object_area_apart h.heap (.inr ho) ho' hb
    unfold Heap.Apart at k7 k8
    simp only at k8
    exact ⟨k4, by omega, by omega⟩
  have hoa := (hobj (.inr ho)).2
  -- the area is written, then linked
  unfold withArea
  set m := areaMem hs.mem a o (word s.heap.mem o)
  have hw : ∀ w, w % 8 = 0 → word m w = _ := fun w hw8 =>
    word_areaMem (m := hs.mem) (a := a) (o := o) (w := w) h1 h2 h3 h5 (by omega) (load_lt s.heap.mem o 8) hw8
  have hout : ∀ w, w % 8 = 0 → w + 8 ≤ a.1 ∨ a.1 + a.2 ≤ w → word m w = word hs.mem w := by
    intro w hw8 hww
    rw [hw w hw8, if_neg (by omega), if_neg (by omega), if_neg (by omega), if_neg (by omega), if_neg (by omega)]
  have hpoke : ∀ w, w % 8 = 0 → w ≠ o → word (store m o 8 a.1) w = word m w := by
    intro w hw8 hne; rw [word_poke ho8 hw8 (by omega), if_neg hne]
  have hlist : getList (store m o 8 a.1) o = a.1 := by
    show word _ o = _
    rw [word_poke ho8 ho8 (by omega), if_pos rfl]
  have haw : ∀ w, AreaWord a w → w % 8 = 0 ∧ w ≠ o := by
    intro w hw'
    obtain ⟨k1, k2, k3⟩ := hw'.bounds h1 h2 h3
    exact ⟨k1, by omega⟩
  have huse : getUseLen m a.1 = 0 := by
    show word m (a.1 + 16) = _
    rw [hw _ (by omega), if_neg (by omega), if_pos rfl]
  refine ⟨⟨?_, hl, ?_⟩, ?_, hlist⟩
  · -- all the writes hit the new area or the object
    refine hg.write (m := store m o 8 a.1) ?_
    have hino : ∀ x, o ≤ x → x < o + 8 → InPayload (a :: live) x := fun x k1 k2 => ⟨c, hc, by omega, by omega⟩
    have hina := (sameOff_areaMem h3 hs.mem o (word s.heap.mem o)).mono fun x hx =>
      show InPayload (a :: live) x from ⟨a, List.mem_cons_self .., hx⟩
    exact hina.trans (sameOff_store hino)
  · have hbooks : Books dbg m s.freeAlls objs F regions areas := by
      refine (h.books.of_payloads (fun _ h => h) h.layout h.heap hsame).congr (fun o' ho' => ?_) (fun o' ho' => ?_)
        fun o' ho' b hb w hbw => ?_
      · have := hobj (.inl ho'); exact hout _ (by omega) (by omega)
      · have := hobj (.inr ho'); exact hout _ (by omega) (by omega)
      · obtain ⟨k1, k2, -⟩ := hold o' ho' b hb w hbw; exact hout w k1 k2
    refine hbooks.addArea ⟨?_, ?_, ?_⟩ huse (by omega) h6 ?_ hlist (fun o' ho' => ?_) (fun o' ho' hne => ?_)
      (fun w hw' => hpoke w (haw w hw').1 (haw w hw').2) fun o' ho' b hb w hbw => ?_
    · show word m a.1 = _
      rw [hw _ h1, if_neg (by omega), if_neg (by omega), if_neg (by omega), if_neg (by omega), if_pos rfl]
    · show word m (a.1 + 8) = _
      rw [hw _ (by omega), if_neg (by omega), if_neg (by omega), if_pos rfl]
    · rw [hw _ (by omega), if_neg (by omega), if_neg (by omega), if_neg (by omega), if_pos rfl]
    · show word m (a.1 + 24) = word m o
      rw [hw _ (by omega), if_pos rfl, hout o ho8 (by omega)]
      obtain ⟨c', -, hc', ⟨j, hj⟩, hce', -⟩ := h.layout.object_spec h.heap (.inr ho)
      exact (word_same hsame hc' (by omega) (by omega)).symm
    · obtain ⟨k1, k2⟩ := hobj (.inl ho')
      refine hpoke _ (by omega) fun e => ?_
      have hne : o' ≠ o := by
        rintro rfl
        exact (List.nodup_append.1 h.layout.nodup).2.2 o' ho' o' ho rfl
      have := h.layout.object_apart h.heap (.inl ho') (.inr ho) hne
      unfold Heap.Apart at this
      simp only at this
      omega
    · exact hpoke o' (hobj (.inr ho')).1 hne
    · obtain ⟨k1, k2, k3⟩ := hold o' ho' b hb w hbw
      exact hpoke w k1 (by omega)
  · exact (hpoke _ (by omega) (by omega)).trans huse

theorem newArea_need (bm : Nat) : u64 (u64 (bm + sizeofArea) + sizeofPtr) = u64 (bm + 40) := by
  unfold u64 sizeofArea sizeofPtr
  omega

/-- The code of `_allocator_new_area` after its `mm_heap_alloc`, up to the check of the length. -/
theorem allocatorNewArea_checks {o bm : Nat} {a : Nat × Nat} {hs : HeapState σ}
    (hrun : Heap.mmHeapAlloc dbg pg (u64 (bm + 40)) s.heap = .ok a hs) (h1 : a.1 % 8 = 0) (h2 : a.2 % 8 = 0)
    (h3 : 4072 ≤ a.2) (h5 : a.1 + a.2 < 2 ^ 64) (ho64 : o < 2 ^ 64) :
    allocatorNewArea dbg pg o bm s = (do
      kernelAssert (a.2 - 40 ≥ bm) "area->block_len >= block_min"
      poke (a.1 + 16) 0
      let s ← get
      poke (a.1 + 24) (getList s.heap.mem o)
      poke o a.1
      return a.1)
      { s with heap := { hs with
        mem := store (store (store hs.mem a.1 8 (a.1 + sizeofArea)) (a.1 + a.2 - 8) 8 o) (a.1 + 8) 8 (a.2 - 40) } } := by
  have hguard : u64Sub (u64 (a.1 + a.2)) sizeofPtr = a.1 + a.2 - 8 := by
    unfold sizeofPtr
    rw [u64_of_lt h5, u64Sub_of_le (by omega) h5]
  have halign : mmAlignCheck (a.1 + a.2 - 8) sizeofPtr = true := by
    unfold mmAlignCheck sizeofPtr
    simp only [decide_eq_true_eq]
    omega
  have hblock : getBlock (store (store hs.mem a.1 8 (a.1 + sizeofArea)) (a.1 + a.2 - 8) 8 o) a.1 = a.1 + sizeofArea := by
    show word _ a.1 = _
    unfold sizeofArea
    rw [word_poke (by omega) h1 ho64, if_neg (by omega), word_poke h1 h1 (by omega), if_pos rfl]
  have hlenw : u64Sub (a.1 + a.2 - 8) (a.1 + sizeofArea) = a.2 - 40 := by
    unfold sizeofArea
    rw [u64Sub_of_le (by omega) (by omega)]; omega
  have hblen : ∀ m, getBlockLen (store m (a.1 + 8) 8 (a.2 - 40)) a.1 = a.2 - 40 := by
    intro m
    show word _ (a.1 + 8) = _
    rw [word_poke (by omega) (by omega) (by omega), if_pos rfl]
  unfold allocatorNewArea
  rw [newArea_need, Exec.bind_ok (onHeap_run hrun)]
  simp only [hguard]
  rw [u64_of_lt (n := a.1 + sizeofArea) (by unfold sizeofArea; omega), Exec.bind_ok (poke_run _ _ _),
    Exec.bind_ok (kernelAssert_pos (by rw [hguard]; exact halign) _ _),
    Exec.bind_ok (poke_run _ _ _), Exec.bind_ok (Exec.get_run _)]
  simp only [hblock, hlenw]
  rw [Exec.bind_ok (poke_run _ _ _), Exec.bind_ok (Exec.get_run _), kernelAssert_congr (by rw [hblen])]

/-- `_allocator_new_area` when the block is long enough. -/
theorem allocatorNewArea_eq {o bm : Nat} {a : Nat × Nat} {hs : HeapState σ} (hlen : bm + 64 ≤ 2 ^ 27)
    (hrun : Heap.mmHeapAlloc dbg pg (bm + 40) s.heap = .ok a hs) (h1 : a.1 % 8 = 0) (h2 : a.2 % 8 = 0)
    (h3 : 4072 ≤ a.2) (h5 : a.1 + a.2 < 2 ^ 64) (hbm : bm + 40 ≤ a.2) (ho8 : o % 8 = 0) (ho64 : o < 2 ^ 64)
    (hoa : o + 16 ≤ a.1 ∨ a.1 + a.2 ≤ o) (hsame : word hs.mem o = word s.heap.mem o) :
    allocatorNewArea dbg pg o bm s = .ok a.1 (withArea s hs a o) := by
  have hlist : getList (store (store (store (store hs.mem a.1 8 (a.1 + sizeofArea)) (a.1 + a.2 - 8) 8 o) (a.1 + 8) 8
      (a.2 - 40)) (a.1 + 16) 8 0) o = word s.heap.mem o := by
    show word _ o = _
    unfold sizeofArea
    rw [word_poke (by omega) ho8 (by omega), if_neg (by omega), word_poke (by omega) ho8 (by omega), if_neg (by omega),
      word_poke (by omega) ho8 ho64, if_neg (by omega), word_poke h1 ho8 (by omega), if_neg (by omega), hsame]
  rw [allocatorNewArea_checks (by rw [u64_of_lt (by omega)]; exact hrun) h1 h2 h3 h5 ho64,
    Exec.bind_ok (kernelAssert_pos (by omega) _ _), Exec.bind_ok (poke_run _ _ _), Exec.bind_ok (Exec.get_run _)]
  simp only [hlist]
  rw [Exec.bind_ok (poke_run _ _ _), Exec.bind_ok (poke_run _ _ _)]
  rfl

/-- `_allocator_new_area` gets a heap allocation and makes it the newest area. -/
theorem allocatorNewArea_run (h : Inv dbg s objs regions live carves F areas A) {o bm : Nat} (ho : o ∈ objs)
    (hlen : bm + 64 ≤ 2 ^ 27) (hgrow : Heap.GrowsFor pg (bm + 40) s.heap) :
    ∃ a s' A', allocatorNewArea dbg pg o bm s = .ok a.1 s' ∧
      Inv dbg s' objs regions (a :: live) carves F (Function.update areas o (a :: areas o)) A' ∧
      bm + 40 ≤ a.2 ∧ a.2 = 2 ^ Heap.freeClassOf (bm + 40) * 4096 - 24 ∧ getUseLen s'.heap.mem a.1 = 0 ∧
      getList s'.heap.mem o = a.1 := by
  have hadm : Heap.Admissible (bm + 40) := ⟨by omega, by unfold Heap.sizeofBlock; omega⟩
  obtain ⟨p, hs, A', hrun, hg, -, hfit, -, hsame, -⟩ := h.heap.alloc dbg hadm hgrow
  have ha2 : (Heap.payload p (Heap.freeClassOf (bm + 40))).2 = 2 ^ Heap.freeClassOf (bm + 40) * 4096 - 24 := rfl
  generalize Heap.payload p (Heap.freeClassOf (bm + 40)) = a at *
  obtain ⟨h1, h2, h3, h4, h5, h6, -⟩ := hg.payload_spec (List.mem_cons_self ..)
  obtain ⟨hinv, huse, hlist⟩ := h.addArea ho hg hsame
  obtain ⟨c, -, hc, ⟨i, hi⟩, hce, ho8, ho0, ho64⟩ := h.layout.object_spec h.heap (.inr ho)
  have hoa := hinv.layout.object_area_apart hg (.inr ho) ho
    (by rw [Function.update_self]; exact List.mem_cons_self .. : a ∈ _)
  unfold Heap.Apart at hoa
  refine ⟨a, _, A', allocatorNewArea_eq hlen hrun h1 h2 h3 h5 hfit ho8 (by omega) (by simpa using hoa) ?_, hinv, hfit,
    ha2, huse, hlist⟩
  exact word_same hsame hc (by omega) (by omega)

/-! ## Cutting a region -/

theorem slopOf_spec (start : Nat) {align : Nat} (h : 0 < align) :
    slopOf start align < align ∧ align ∣ start + slopOf start align := by
  have hlt := Nat.mod_lt start h
  unfold slopOf
  split
  · refine ⟨by omega, ?_⟩
    rw [show start + (align - start % align) = align * (start / align) + align by
      have := Nat.div_add_mod start align; omega]
    exact Nat.dvd_add (Nat.dvd_mul_right ..) dvd_rfl
  · rw [Nat.add_zero]
    exact ⟨h, Nat.dvd_of_mod_eq_zero (by omega)⟩

/-- The first unused byte of an area. -/
def freeStart (m : Mem) (a : Nat × Nat) : Nat := a.1 + sizeofArea + getUseLen m a.1

theorem Inv.free_spec (h : Inv dbg s objs regions live carves F areas A) {o : Nat} {a : Nat × Nat} (ho : o ∈ objs)
    (ha : a ∈ areas o) : areaFreeLen s.heap.mem a.1 = a.2 - 40 - getUseLen s.heap.mem a.1 ∧
      areaFreeStart dbg a.1 s = .ok (freeStart s.heap.mem a) s := by
  obtain ⟨h1, h2, h3, h4, h5, h6, -⟩ := h.heap.payload_spec (h.layout.area_live ho ha)
  have hw := h.books.area ho ha
  obtain ⟨hu, hud⟩ := h.books.use ho ha
  have hlen : areaFreeLen s.heap.mem a.1 = a.2 - 40 - getUseLen s.heap.mem a.1 := by
    unfold areaFreeLen
    rw [hw.blockLen, u64Sub_of_le hu (by omega)]
  refine ⟨hlen, ?_⟩
  unfold areaFreeStart
  rw [Exec.bind_ok (Exec.get_run s), Exec.bind_ok (kernelAssertD_of ?_ _ s), hw.block,
    u64_of_lt (by unfold sizeofArea; omega)]
  · rfl
  · intro hd
    have := hud hd
    rw [hlen]
    omega

/-- The state with `use_len` of an area set to `v`. -/
def withUse (s : AllState σ) (a v : Nat) : AllState σ :=
  { s with heap := { s.heap with mem := store s.heap.mem (a + 16) 8 v } }

theorem getUseLen_withUse {a v : Nat} (ha : a % 8 = 0) (hv : v < 2 ^ 64) :
    getUseLen (withUse s a v).heap.mem a = v := by
  have : word (store s.heap.mem (a + 16) 8 v) (a + 16) = v := by
    rw [word_poke (by omega) (by omega) hv, if_pos rfl]
  exact this

/-- The books after `use_len` of an area is moved past a region. -/
theorem Inv.cut (h : Inv dbg s objs regions live carves F areas A) {o : Nat} {a : Nat × Nat} (ho : o ∈ objs)
    (ha : a ∈ areas o) {r : Region} {v : Nat} (hal : r.align ∣ r.ptr) (hlo : freeStart s.heap.mem a ≤ r.ptr)
    (hend : r.ptr + r.size = a.1 + sizeofArea + v) (hle : v ≤ a.2 - 40 ∧ (dbg = true → v < a.2 - 40)) :
    Inv dbg (withUse s a.1 v) objs (Function.update regions o (r :: regions o)) live carves F areas A := by
  have hal' := h.layout.area_live ho ha
  obtain ⟨h1, h2, h3, h4, h5, h6, -⟩ := h.heap.payload_spec hal'
  have hpoke : ∀ w, w % 8 = 0 → w ≠ a.1 + 16 → word (store s.heap.mem (a.1 + 16) 8 v) w = word s.heap.mem w := by
    intro w hw8 hne; rw [word_poke (by omega) hw8 (by omega), if_neg hne]
  have huse : getUseLen (withUse s a.1 v).heap.mem a.1 = v := getUseLen_withUse h1 (by omega)
  have hobj : ∀ {o'}, o' ∈ F ∨ o' ∈ objs → o' % 8 = 0 ∧ (o' + 16 ≤ a.1 ∨ a.1 + a.2 ≤ o') := by
    intro o' ho'
    obtain ⟨-, -, -, -, -, h8, -⟩ := h.layout.object_spec h.heap ho'
    have := h.layout.object_area_apart h.heap ho' ho ha
    unfold Heap.Apart at this
    exact ⟨h8, by simpa using this⟩
  refine ⟨h.heap.write (sameOff_store fun x k1 k2 => ⟨a, hal', by omega, by omega⟩), h.layout,
    h.books.cut ho ha (fun o' ho' b hb => ?_) hal hlo (by rw [huse]; exact hend) (by rw [huse]; exact hle)
      (fun o' ho' => ?_) (fun o' ho' => ?_) (fun o' ho' b hb w hw hne => ?_) fun o' ho' b hb hne => ?_⟩
  · have := h.heap.payload_spec (h.layout.area_live ho' hb); omega
  · have := hobj (.inl ho'); exact hpoke _ (by omega) (by omega)
  · have := hobj (.inr ho'); exact hpoke _ (by omega) (by omega)
  · obtain ⟨k1, k2, k3, -⟩ := h.heap.payload_spec (h.layout.area_live ho' hb)
    exact hpoke w (hw.bounds k1 k2 k3).1 hne
  · exact h.heap.apart_of_ne hal' (h.layout.area_live ho' hb) (Ne.symm hne)

/-- The end of `mm_allocate` on an area with room for the request: all that is left to check is that the
request does not fill the area. -/
theorem cutRegion_eq (h : Inv dbg s objs regions live carves F areas A) {o size align : Nat} {a : Nat × Nat}
    (ho : o ∈ objs) (ha : a ∈ areas o) (h0 : 0 < align)
    (hfit : size + slopOf (freeStart s.heap.mem a) align ≤ areaFreeLen s.heap.mem a.1) :
    cutRegion dbg a.1 size align s =
      (kernelAssertD dbg (size + slopOf (freeStart s.heap.mem a) align < areaFreeLen s.heap.mem a.1)
        "area->use_len < area->block_len" >>= fun _ =>
          pure (freeStart s.heap.mem a + slopOf (freeStart s.heap.mem a) align))
      (withUse s a.1 (getUseLen s.heap.mem a.1 + (size + slopOf (freeStart s.heap.mem a) align))) := by
  obtain ⟨h1, h2, h3, h4, h5, h6, -⟩ := h.heap.payload_spec (h.layout.area_live ho ha)
  obtain ⟨hlen, hstart⟩ := h.free_spec ho ha
  have hw := h.books.area ho ha
  have hu := (h.books.use ho ha).1
  have hdvd := (slopOf_spec (freeStart s.heap.mem a) h0).2
  have hfs : freeStart s.heap.mem a = a.1 + sizeofArea + getUseLen s.heap.mem a.1 := rfl
  have hsz : sizeofArea = 32 := rfl
  set slop := slopOf (freeStart s.heap.mem a) align with hsl
  set use := getUseLen s.heap.mem a.1 with hus
  have hneed : size + slop ≤ a.2 - 40 - use := hlen ▸ hfit
  have huse : getUseLen (store s.heap.mem (a.1 + 16) 8 (use + (size + slop))) a.1 = use + (size + slop) := by
    show word _ (a.1 + 16) = _
    rw [word_poke (by omega) (by omega) (by omega), if_pos rfl]
  have hblen : getBlockLen (store s.heap.mem (a.1 + 16) 8 (use + (size + slop))) a.1 = a.2 - 40 := by
    show word _ (a.1 + 8) = _
    rw [word_poke (by omega) (by omega) (by omega), if_neg (by omega)]
    exact hw.blockLen
  have hcheck : (getUseLen (store s.heap.mem (a.1 + 16) 8 (use + (size + slop))) a.1 <
      getBlockLen (store s.heap.mem (a.1 + 16) 8 (use + (size + slop))) a.1) ↔
      size + slop < areaFreeLen s.heap.mem a.1 := by
    rw [huse, hblen, hlen]; omega
  have halign : mmAlignCheck (freeStart s.heap.mem a + slop) align = true := by
    unfold mmAlignCheck
    simp only [decide_eq_true_eq]
    exact Nat.mod_eq_zero_of_dvd hdvd
  unfold cutRegion
  rw [Exec.bind_ok hstart]
  simp only [← hsl]
  rw [u64_of_lt (n := size + slop) (by omega), Exec.bind_ok (Exec.get_run s),
    Exec.bind_ok (kernelAssertD_pos (by exact hfit) dbg _ s), ← hus,
    u64_of_lt (n := use + (size + slop)) (by omega), Exec.bind_ok (poke_run _ _ _), Exec.bind_ok (Exec.get_run _),
    u64_of_lt (n := freeStart s.heap.mem a + slop) (by omega)]
  have hlast : (kernelAssertD dbg (mmAlignCheck (freeStart s.heap.mem a + slop) align = true)
      "mm_align_check(ret, align)" >>= fun _ => pure (freeStart s.heap.mem a + slop) : AllM σ Nat) =
      pure (freeStart s.heap.mem a + slop) := funext fun t => Exec.bind_ok (kernelAssertD_pos halign dbg _ t)
  rw [kernelAssertD_congr hcheck, hlast]
  rfl

/-- The region lies in the used part of the area. -/
def Within (m : Mem) (a p size : Nat) : Prop := a + sizeofArea ≤ p ∧ p + size ≤ a + sizeofArea + getUseLen m a

/-- A request that leaves a byte of the area, or any that fits in a build that does not check, is served. -/
theorem cutRegion_run (h : Inv dbg s objs regions live carves F areas A) {o size align : Nat} {a : Nat × Nat}
    (ho : o ∈ objs) (ha : a ∈ areas o) (h0 : 0 < align)
    (hfit : size + slopOf (freeStart s.heap.mem a) align ≤ areaFreeLen s.heap.mem a.1)
    (hdbg : dbg = true → size + slopOf (freeStart s.heap.mem a) align < areaFreeLen s.heap.mem a.1) :
    ∃ p s', cutRegion dbg a.1 size align s = .ok p s' ∧
      Inv dbg s' objs (Function.update regions o (⟨p, size, align⟩ :: regions o)) live carves F areas A ∧
      getUseLen s'.heap.mem a.1 = getUseLen s.heap.mem a.1 + (size + slopOf (freeStart s.heap.mem a) align) ∧
      Within s'.heap.mem a.1 p size := by
  obtain ⟨h1, h2, h3, h4, h5, h6, -⟩ := h.heap.payload_spec (h.layout.area_live ho ha)
  have hlen := (h.free_spec ho ha).1
  have hu := (h.books.use ho ha).1
  have hdvd := (slopOf_spec (freeStart s.heap.mem a) h0).2
  have hfs : freeStart s.heap.mem a = a.1 + sizeofArea + getUseLen s.heap.mem a.1 := rfl
  have huse := getUseLen_withUse (s := s) (a := a.1)
    (v := getUseLen s.heap.mem a.1 + (size + slopOf (freeStart s.heap.mem a) align))
    h1 (by omega)
  rw [cutRegion_eq h ho ha h0 hfit, Exec.bind_ok (kernelAssertD_of hdbg _ _)]
  refine ⟨_, _, Exec.pure_run _ _, ?_, huse, ?_⟩
  · refine h.cut ho ha hdvd (Nat.le_add_right ..) ?_ ⟨?_, fun hd => ?_⟩
    · simp only; omega
    · omega
    · have := hdbg hd; omega
  · unfold Within
    rw [huse]
    omega

/-- A request that fills the area exactly fails the assertion that checks the new `use_len`. -/
theorem cutRegion_exact (h : Inv true s objs regions live carves F areas A) {o size align : Nat} {a : Nat × Nat}
    (ho : o ∈ objs) (ha : a ∈ areas o) (h0 : 0 < align)
    (hfit : size + slopOf (freeStart s.heap.mem a) align = areaFreeLen s.heap.mem a.1) :
    ∃ s', cutRegion true a.1 size align s = .error (.assertFail "area->use_len < area->block_len") s' := by
  rw [cutRegion_eq h ho ha h0 hfit.le, Exec.bind_error (kernelAssertD_neg hfit.not_lt _ _)]
  exact ⟨_, rfl⟩

/-! ## A request -/

/-- A request `mm_allocate` accepts: its size, the alignment and the headers around it fit into a block of
the top class. -/
def Request (size align : Nat) : Prop :=
  1 ≤ align ∧ size + align + sizeofArea + sizeofPtr + Heap.sizeofBlock ≤ 2 ^ 27

/-- What the request takes of the current area of an allocator, padding included. -/
def needOf (m : Mem) (all size align : Nat) : Nat :=
  size + slopOf (u64 (getBlock m (getList m all) + getUseLen m (getList m all))) align

/-- The allocator has a current area with room for the request. -/
def Fits (m : Mem) (all size align : Nat) : Prop :=
  getList m all ≠ 0 ∧ needOf m all size align ≤ areaFreeLen m (getList m all)

/-- The request takes all that is left of the current area of the allocator. -/
def Fills (m : Mem) (all size align : Nat) : Prop :=
  getList m all ≠ 0 ∧ needOf m all size align = areaFreeLen m (getList m all)

theorem Request.bounds {size align : Nat} (h : Request size align) : 0 < align ∧ size + align + 64 ≤ 2 ^ 27 := by
  unfold Request sizeofArea sizeofPtr Heap.sizeofBlock at h; omega

/-- The current area is the first one of the ghost list. -/
theorem Inv.current (h : Inv dbg s objs regions live carves F areas A) {o : Nat} {a : Nat × Nat}
    {t : List (Nat × Nat)} (ho : o ∈ objs) (ha : areas o = a :: t) :
    getList s.heap.mem o = a.1 ∧ a.1 ≠ 0 ∧ ∀ size align, needOf s.heap.mem o size align =
      size + slopOf (freeStart s.heap.mem a) align := by
  have hmem : a ∈ areas o := by rw [ha]; exact List.mem_cons_self ..
  obtain ⟨h1, h2, h3, h4, h5, h6, -⟩ := h.heap.payload_spec (h.layout.area_live ho hmem)
  have hch := h.books.list ho
  rw [ha] at hch
  have hlist : getList s.heap.mem o = a.1 := hch.1
  have hu := (h.books.use ho hmem).1
  refine ⟨hlist, h6, fun size align => ?_⟩
  unfold needOf freeStart
  rw [hlist, (h.books.area ho hmem).block, u64_of_lt (by unfold sizeofArea; omega)]

/-- An allocator without areas has no current one. -/
theorem Inv.list_of_nil (h : Inv dbg s objs regions live carves F areas A) {o : Nat} (ho : o ∈ objs) (hareas : areas o = []) :
    getList s.heap.mem o = 0 := by
  have := h.books.list ho
  rw [hareas] at this
  exact this

theorem Inv.exists_current (h : Inv dbg s objs regions live carves F areas A) {o : Nat} (ho : o ∈ objs)
    (hlist : getList s.heap.mem o ≠ 0) : ∃ a t, areas o = a :: t :=
  List.exists_cons_of_ne_nil fun hareas => hlist (h.list_of_nil ho hareas)

theorem areaFor_fits (h : Inv dbg s objs regions live carves F areas A) {o size align : Nat} {a : Nat × Nat}
    (ho : o ∈ objs) (ha : a ∈ areas o)
    (hfit : size + slopOf (freeStart s.heap.mem a) align ≤ areaFreeLen s.heap.mem a.1) :
    areaFor dbg pg o a.1 size align s = .ok a.1 s := by
  obtain ⟨h1, h2, h3, h4, h5, h6, -⟩ := h.heap.payload_spec (h.layout.area_live ho ha)
  have hlen := (h.free_spec ho ha).1
  unfold areaFor
  rw [Exec.bind_ok (h.free_spec ho ha).2, Exec.bind_ok (Exec.get_run s), u64_of_lt (by omega), if_neg (by omega)]
  rfl

theorem areaFor_new (h : Inv dbg s objs regions live carves F areas A) {o size align : Nat} {a : Nat × Nat}
    (ho : o ∈ objs) (ha : a ∈ areas o) (hreq : Request size align)
    (hfit : ¬ size + slopOf (freeStart s.heap.mem a) align ≤ areaFreeLen s.heap.mem a.1)
    (hgrow : Heap.GrowsFor pg (size + align + 40) s.heap) :
    ∃ b s' A', areaFor dbg pg o a.1 size align s = .ok b.1 s' ∧
      Inv dbg s' objs regions (b :: live) carves F (Function.update areas o (b :: areas o)) A' ∧
      size + align + 40 ≤ b.2 ∧ getUseLen s'.heap.mem b.1 = 0 := by
  obtain ⟨h0, hlen⟩ := hreq.bounds
  have hslop := (slopOf_spec (freeStart s.heap.mem a) h0).1
  obtain ⟨b, s', A', hrun, hinv, hfb, -, huse, hlist⟩ := allocatorNewArea_run h ho (by omega) hgrow
  have hb : b ∈ Function.update areas o (b :: areas o) o := by rw [Function.update_self]; exact List.mem_cons_self ..
  have hfree := (hinv.free_spec ho hb).1
  rw [huse] at hfree
  refine ⟨b, s', A', ?_, hinv, hfb, huse⟩
  unfold areaFor
  rw [Exec.bind_ok (h.free_spec ho ha).2, Exec.bind_ok (Exec.get_run s), u64_of_lt (by omega), if_pos (by omega),
    u64_of_lt (by omega), Exec.bind_ok hrun, Exec.bind_ok (Exec.get_run _),
    Exec.bind_ok (kernelAssertD_pos hlist dbg _ _), Exec.bind_ok (kernelAssertD_pos ?_ dbg _ _)]
  · rfl
  · rw [hfree]; omega

/-- A fresh area holds the request it was made for, with a byte to spare. -/
theorem cutRegion_fresh (h : Inv dbg s objs regions live carves F areas A) {o size align : Nat} {a : Nat × Nat}
    (ho : o ∈ objs) (ha : a ∈ areas o) (hreq : Request size align) (hroom : size + align + 40 ≤ a.2)
    (huse : getUseLen s.heap.mem a.1 = 0) :
    size + slopOf (freeStart s.heap.mem a) align < areaFreeLen s.heap.mem a.1 := by
  have hslop := (slopOf_spec (freeStart s.heap.mem a) hreq.bounds.1).1
  rw [(h.free_spec ho ha).1, huse]
  omega

/-- The first request of an allocator gets an area of its own. -/
theorem mmAllocate_first (h : Inv dbg s objs regions live carves F areas A) {o size align : Nat} (ho : o ∈ objs)
    (hareas : areas o = []) (hreq : Request size align) (hgrow : Heap.GrowsFor pg (size + align + 40) s.heap) :
    ∃ p s' a A', mmAllocate dbg pg o size align s = .ok p s' ∧
      Inv dbg s' objs (Function.update regions o (⟨p, size, align⟩ :: regions o)) (a :: live) carves F
        (Function.update areas o (a :: areas o)) A' ∧
      a.2 = 2 ^ Heap.freeClassOf (size + align + 40) * 4096 - 24 ∧
      getUseLen s'.heap.mem a.1 = size + slopOf (a.1 + sizeofArea) align ∧ Within s'.heap.mem a.1 p size := by
  obtain ⟨h0, hlen⟩ := hreq.bounds
  have hlist := h.list_of_nil ho hareas
  obtain ⟨a, s1, A1, hrun, hinv, hroom, hlena, huse, hlist1⟩ := allocatorNewArea_run h ho (by omega) hgrow
  have ha : a ∈ Function.update areas o (a :: areas o) o := by
    rw [Function.update_self]; exact List.mem_cons_self ..
  have hcut := cutRegion_fresh hinv ho ha hreq hroom huse
  obtain ⟨p, s2, hs2, hinv2, huse2, hin2⟩ := cutRegion_run hinv ho ha h0 hcut.le fun _ => hcut
  rw [show freeStart s1.heap.mem a = a.1 + sizeofArea by unfold freeStart; rw [huse, Nat.add_zero], huse,
    Nat.zero_add] at huse2
  refine ⟨p, s2, a, A1, ?_, hinv2, hlena, huse2, hin2⟩
  unfold mmAllocate
  rw [Exec.bind_ok (Exec.get_run s), if_pos hlist, u64_of_lt (by omega), Exec.bind_ok hrun, Exec.bind_ok (Exec.get_run _),
    Exec.bind_ok (kernelAssertD_pos hlist1 dbg _ _), Exec.bind_ok (areaFor_fits hinv ho ha hcut.le)]
  exact hs2

/-- `mm_allocate` of a request that fits, or of an accepted one, returns a region of the current area or of a new one, unless,
in the debug build, it would fill the current area. -/
theorem mmAllocate_run (h : Inv dbg s objs regions live carves F areas A) {o size align : Nat} (ho : o ∈ objs)
    (h0 : 0 < align) (hreq : ¬ Fits s.heap.mem o size align → Request size align)
    (hgrow : ¬ Fits s.heap.mem o size align → Heap.GrowsFor pg (size + align + 40) s.heap)
    (hfill : dbg = true → ¬ Fills s.heap.mem o size align) :
    ∃ p s' new A', mmAllocate dbg pg o size align s = .ok p s' ∧
      Inv dbg s' objs (Function.update regions o (⟨p, size, align⟩ :: regions o)) (new ++ live) carves F
        (Function.update areas o (new ++ areas o)) A' ∧
      ∃ a t, new ++ areas o = a :: t ∧ Within s'.heap.mem a.1 p size := by
  cases hareas : areas o with
  | nil =>
    have hlist := h.list_of_nil ho hareas
    have hnf : ¬ Fits s.heap.mem o size align := fun hf => hf.1 hlist
    obtain ⟨p, s', a, A', hrun, hinv, -, -, hin⟩ := mmAllocate_first h ho hareas (hreq hnf) (hgrow hnf)
    rw [hareas] at hinv
    exact ⟨p, s', [a], A', hrun, hinv, a, [], rfl, hin⟩
  | cons a t =>
    have ha : a ∈ areas o := by rw [hareas]; exact List.mem_cons_self ..
    obtain ⟨hlist, hnull, hneed⟩ := h.current ho hareas
    unfold mmAllocate
    rw [Exec.bind_ok (Exec.get_run s), if_neg (by rw [hlist]; exact hnull), hlist, ← hareas]
    by_cases hfit : size + slopOf (freeStart s.heap.mem a) align ≤ areaFreeLen s.heap.mem a.1
    · obtain ⟨p, s1, hs1, hinv1, -, hin1⟩ := cutRegion_run h ho ha h0 hfit fun hd => by
        refine lt_of_le_of_ne hfit fun e => hfill hd ⟨by rw [hlist]; exact hnull, ?_⟩
        rw [hneed, hlist]; exact e
      refine ⟨p, s1, [], A, ?_, by simpa using hinv1, a, t, hareas, hin1⟩
      rw [Exec.bind_ok (areaFor_fits h ho ha hfit)]
      exact hs1
    · have hnf : ¬ Fits s.heap.mem o size align := fun hf => hfit (by have := hf.2; rwa [hneed, hlist] at this)
      have hreq := hreq hnf
      obtain ⟨b, s1, A1, hs1, hinv, hroom, huse⟩ := areaFor_new h ho ha hreq hfit (hgrow hnf)
      have hb : b ∈ Function.update areas o (b :: areas o) o := by
        rw [Function.update_self]; exact List.mem_cons_self ..
      have hcut := cutRegion_fresh hinv ho hb hreq hroom huse
      obtain ⟨p, s2, hs2, hinv2, -, hin2⟩ := cutRegion_run hinv ho hb h0 hcut.le fun _ => hcut
      refine ⟨p, s2, [b], A1, ?_, hinv2, b, areas o, rfl, hin2⟩
      rw [Exec.bind_ok hs1]
      exact hs2

/-- In the debug build, a request that would fill the current area fails the last assertion but one. -/
theorem mmAllocate_fills (pg : Paging σ) (h : Inv true s objs regions live carves F areas A) {o size align : Nat}
    (ho : o ∈ objs) (h0 : 0 < align) (hfill : Fills s.heap.mem o size align) :
    ∃ s', mmAllocate true pg o size align s = .error (.assertFail "area->use_len < area->block_len") s' := by
  obtain ⟨hlist, hfill⟩ := hfill
  obtain ⟨a, t, hareas⟩ := h.exists_current ho hlist
  have ha : a ∈ areas o := by rw [hareas]; exact List.mem_cons_self ..
  obtain ⟨hlist', -, hneed⟩ := h.current ho hareas
  rw [hneed, hlist'] at hfill
  obtain ⟨s', hs'⟩ := cutRegion_exact h ho ha h0 hfill
  refine ⟨s', ?_⟩
  unfold mmAllocate
  rw [Exec.bind_ok (Exec.get_run s), if_neg hlist, hlist', Exec.bind_ok (areaFor_fits h ho ha hfill.le)]
  exact hs'

end Calls

end Cing.Allocator
