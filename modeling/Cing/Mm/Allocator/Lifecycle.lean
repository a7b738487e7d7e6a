/-
`mm_allocator_new` and `mm_allocator_free`: an allocator object is taken off `_free_alls`, which is
refilled from a carved heap block when it is empty, and goes back there after the areas of the
allocator were returned to the heap one by one.
-/
import Cing.Mm.Allocator.Calls

namespace Cing.Allocator

open Bytes Linked
open Heap (Apart InPayload)

section Lifecycle

variable {σ : Type} {dbg : Bool} {pg : Paging σ} {s : AllState σ} {objs F : List Nat} {regions : Nat → List Region}
  {live carves : List (Nat × Nat)} {areas : Nat → List (Nat × Nat)} {A : Buddy.St}

/-! ## Carving a block -/

/-- The first `i` objects of the block at `c`, last one first. -/
def carved (c i : Nat) : List Nat := ((List.range i).map (objectAt c)).reverse

theorem carved_succ (c i : Nat) : carved c (i + 1) = objectAt c i :: carved c i := by
  unfold carved
  rw [List.range_succ, List.map_append, List.reverse_append]
  rfl

theorem mem_carved {c i o : Nat} : o ∈ carved c i ↔ ∃ j < i, o = objectAt c j := by
  unfold carved
  rw [List.mem_reverse, List.mem_map]
  constructor
  · rintro ⟨j, hj, rfl⟩; exact ⟨j, List.mem_range.1 hj, rfl⟩
  · rintro ⟨j, hj, rfl⟩; exact ⟨j, List.mem_range.2 hj, rfl⟩

theorem carved_nodup (c i : Nat) : (carved c i).Nodup := by
  unfold carved
  rw [List.nodup_reverse]
  refine List.nodup_range.map fun x y e => ?_
  unfold objectAt sizeofAllocator at e
  omega

theorem mmAlignUp_ptr {τ : Type} {p : Nat} (hp : p % 8 = 0) (hlt : p + 8 < 2 ^ 64) (t : τ) :
    mmAlignUp p sizeofPtr t = .ok p t := by
  have := mmAlignUp_run (p := p) (k := 3) (by omega) (by omega) t
  rwa [show (p + 2 ^ 3 - 1) / 2 ^ 3 * 2 ^ 3 = p by omega] at this

theorem objectAt_eq (c i : Nat) : objectAt c i = c + 256 * i := by unfold objectAt sizeofAllocator; omega

/-- The state after a round of the loop: the object is the first free one. -/
def carveStep (s : AllState σ) (o : Nat) : AllState σ :=
  { heap := { s.heap with mem := store s.heap.mem (o + 8) 8 s.freeAlls }, freeAlls := o }

theorem carveLoop_round {c i : Nat} (hc8 : c % 8 = 0) (hc : c + 4112 < 2 ^ 64) (hi : i < 16) (f : Nat) (s : AllState σ) :
    carveLoop c 4072 (f + 1) (objectAt c i) s = carveLoop c 4072 f (objectAt c (i + 1)) (carveStep s (objectAt c i)) := by
  have ho := objectAt_eq c i
  have ho' := objectAt_eq c (i + 1)
  have hnext : objectAt c i + sizeofAllocator * sizeofAllocator = objectAt c (i + 1) := by unfold sizeofAllocator; omega
  have hfit : u64Sub (u64 (objectAt c i + sizeofAllocator)) c ≤ 4072 := by
    unfold sizeofAllocator
    rw [u64_of_lt (by omega), u64Sub_of_le (by omega) (by omega)]
    omega
  rw [carveLoop, if_pos hfit, Exec.bind_ok (Exec.get_run s), Exec.bind_ok (poke_run _ _ _),
    Exec.bind_ok (Exec.modify_run _ _), hnext, u64_of_lt (by omega), Exec.bind_ok (mmAlignUp_ptr (by omega) (by omega) _)]
  rfl

/-- There is no room for a seventeenth object. -/
theorem carveLoop_end {c : Nat} (hc : c + 4112 < 2 ^ 64) (f : Nat) (s : AllState σ) :
    carveLoop c 4072 (f + 1) (objectAt c 16) s = .ok () s := by
  have ho := objectAt_eq c 16
  have hfull : ¬ u64Sub (u64 (objectAt c 16 + sizeofAllocator)) c ≤ 4072 := by
    unfold sizeofAllocator
    rw [u64_of_lt (by omega), u64Sub_of_le (by omega) (by omega)]
    omega
  rw [carveLoop, if_neg hfull]
  rfl

theorem carveStep_chain {c i : Nat} (hc8 : c % 8 = 0) (hc0 : c ≠ 0) (hlt : s.freeAlls < 2 ^ 64)
    (hch : Chain 0 (getNext s.heap.mem) s.freeAlls (carved c i)) :
    Chain 0 (getNext (carveStep s (objectAt c i)).heap.mem) (objectAt c i) (carved c (i + 1)) := by
  have ho := objectAt_eq c i
  have hword : ∀ w, w % 8 = 0 → word (store s.heap.mem (objectAt c i + 8) 8 s.freeAlls) w =
      if w = objectAt c i + 8 then s.freeAlls else word s.heap.mem w := fun w hw =>
    word_poke (by omega) hw hlt
  have hhead : getNext (carveStep s (objectAt c i)).heap.mem (objectAt c i) = s.freeAlls := by
    show word _ _ = _
    rw [carveStep, hword _ (by omega), if_pos rfl]
  rw [carved_succ]
  refine ⟨rfl, by omega, ?_⟩
  rw [hhead]
  refine hch.congr fun o hm => ?_
  obtain ⟨j, hj, rfl⟩ := mem_carved.1 hm
  have := objectAt_eq c j
  show word _ _ = _
  rw [carveStep, hword _ (by omega), if_neg (by omega)]
  rfl

/-- The loop of `mm_allocator_new` puts the objects of the block on `_free_alls`. -/
theorem carveLoop_run {c : Nat} (hc8 : c % 8 = 0) (hc : c + 4112 < 2 ^ 64) (hc0 : c ≠ 0) : ∀ {n i f : Nat}
    {s : AllState σ}, i + n = 16 → n < f → s.freeAlls < 2 ^ 64 →
    Chain 0 (getNext s.heap.mem) s.freeAlls (carved c i) →
    ∃ m g, carveLoop c 4072 f (objectAt c i) s = .ok () { heap := { s.heap with mem := m }, freeAlls := g } ∧
      Chain 0 (getNext m) g (carved c 16) ∧ SameOff (fun x => c ≤ x ∧ x < c + 4072) s.heap.mem m := by
  intro n
  induction n with
  | zero =>
    intro i f s hi hf _ hch
    obtain rfl : i = 16 := by omega
    obtain ⟨f, rfl⟩ := Nat.exists_eq_add_one_of_ne_zero (Nat.ne_of_gt hf)
    exact ⟨s.heap.mem, s.freeAlls, carveLoop_end hc f s, hch, SameOff.refl _ _⟩
  | succ n ih =>
    intro i f s hi hf hlt hch
    obtain ⟨f, rfl⟩ := Nat.exists_eq_add_one_of_ne_zero (Nat.ne_of_gt (Nat.zero_lt_of_lt hf))
    have ho := objectAt_eq c i
    obtain ⟨m, g, hrun, hfin, hoff⟩ := ih (i := i + 1) (f := f) (s := carveStep s (objectAt c i)) (by omega) (by omega)
      (show objectAt c i < 2 ^ 64 by omega) (carveStep_chain hc8 hc0 hlt hch)
    refine ⟨m, g, (carveLoop_round hc8 hc (by omega) f s).trans hrun, hfin, SameOff.trans (sameOff_store fun x h1 h2 => ?_) hoff⟩
    exact ⟨by omega, by omega⟩

/-- The block joins the carved ones; its objects are the free ones. -/
theorem Layout.carve (hl : Layout live carves objs [] areas) {c : Nat × Nat} {hs : HeapState σ}
    (hg : Heap.Good hs (c :: live) A) (hlen : c.2 = 4072) :
    Layout (c :: live) (c :: carves) objs (carved c.1 16) areas := by
  have hnew : c ∉ live := (List.nodup_cons.1 hg.nodup).1
  refine ⟨fun {a} => ?_, fun {a} ha => ?_, fun {o} => ?_, ?_, hl.areasNodup, hl.owner, fun {o a} ho ha => ?_⟩
  · rw [List.mem_cons, List.mem_cons, hl.live]; tauto
  · rcases List.mem_cons.1 ha with rfl | ha
    · exact hlen
    · exact hl.carveLen ha
  · have hold := hl.object (o := o)
    simp only [List.not_mem_nil, false_or] at hold
    rw [mem_carved, hold]
    constructor
    · rintro (⟨i, hi, rfl⟩ | ⟨c', hc', i, hi, rfl⟩)
      · exact ⟨c, List.mem_cons_self .., i, hi, rfl⟩
      · exact ⟨c', List.mem_cons_of_mem _ hc', i, hi, rfl⟩
    · rintro ⟨c', hc', i, hi, rfl⟩
      rcases List.mem_cons.1 hc' with rfl | hc'
      · exact .inl ⟨i, hi, rfl⟩
      · exact .inr ⟨c', hc', i, hi, rfl⟩
  · refine List.nodup_append.2 ⟨carved_nodup .., by simpa using hl.nodup, fun o ho o' ho' e => ?_⟩
    subst e
    -- an object of an older block is not in the new one
    obtain ⟨i, hi, e₁⟩ := mem_carved.1 ho
    obtain ⟨c', hc', j, hj, e₂⟩ := hl.object.1 (.inr ho')
    have hc'l : c' ∈ live := hl.live.2 (.inl hc')
    have := hg.apart_of_ne (List.mem_cons_self ..) (List.mem_cons_of_mem _ hc'l) fun e => hnew (e ▸ hc'l)
    have hlen' := hl.carveLen hc'
    unfold Heap.Apart at this
    unfold objectAt sizeofAllocator at e₁ e₂
    omega
  · rintro hc
    rcases List.mem_cons.1 hc with rfl | hc
    · exact hnew (hl.area_live ho ha)
    · exact hl.notCarve ho ha hc

/-! ## Taking a free object -/

theorem Layout.takeFree {o : Nat} (hl : Layout live carves objs (o :: F) areas) :
    Layout live carves (o :: objs) F (Function.update areas o []) := by
  have hnd : (F ++ o :: objs).Nodup := (List.perm_middle.nodup_iff).2 (by simpa using hl.nodup)
  have hno : o ∉ objs := by
    have := (List.nodup_append.1 hnd).2.1
    exact (List.nodup_cons.1 this).1
  have hne : ∀ {o'}, o' ∈ objs → o' ≠ o := by
    rintro o' h1 rfl
    exact hno h1
  have hcase : ∀ {o' a}, o' ∈ o :: objs → a ∈ Function.update areas o [] o' → o' ∈ objs ∧ a ∈ areas o' := by
    intro o' a h1 h2
    rcases List.mem_cons.1 h1 with rfl | h1
    · simp at h2
    · rw [Function.update_of_ne (hne h1)] at h2; exact ⟨h1, h2⟩
  refine ⟨fun {a} => ?_, hl.carveLen, fun {o'} => ?_, hnd, fun {o'} h1 => ?_, fun h1 h2 h3 h4 => ?_, fun h1 h2 => ?_⟩
  · rw [hl.live]
    constructor
    · rintro (h1 | ⟨o', h1, h2⟩)
      · exact .inl h1
      · exact .inr ⟨o', List.mem_cons_of_mem _ h1, by rwa [Function.update_of_ne (hne h1)]⟩
    · rintro (h1 | ⟨o', h1, h2⟩)
      · exact .inl h1
      · exact .inr ⟨o', hcase h1 h2⟩
  · rw [← hl.object, List.mem_cons, List.mem_cons]; tauto
  · rcases List.mem_cons.1 h1 with rfl | h1
    · rw [Function.update_self]; exact List.nodup_nil
    · rw [Function.update_of_ne (hne h1)]; exact hl.areasNodup h1
  · exact hl.owner (hcase h1 h3).1 (hcase h2 h4).1 (hcase h1 h3).2 (hcase h2 h4).2
  · exact hl.notCarve (hcase h1 h2).1 (hcase h1 h2).2

/-- Writing a word of an object leaves every other object and every area alone. -/
theorem Layout.object_poke (hl : Layout live carves objs F areas) {hs : HeapState σ} (hg : Heap.Good hs live A)
    {o x v : Nat} (ho : o ∈ F ∨ o ∈ objs) (hx : x = o ∨ x = o + 8) (hv : v < 2 ^ 64) (m : Mem) :
    SameOff (InPayload live) m (store m x 8 v) ∧
    (∀ o', o' ∈ F ∨ o' ∈ objs → o' ≠ o → ∀ w, w = o' ∨ w = o' + 8 → word (store m x 8 v) w = word m w) ∧
    (∀ o' ∈ objs, ∀ a ∈ areas o', ∀ w, AreaWord a w → word (store m x 8 v) w = word m w) := by
  obtain ⟨c, -, hc, ⟨i, hi⟩, hce, ho8, -, ho64⟩ := hl.object_spec hg ho
  have hpoke : ∀ w, w % 8 = 0 → w ≠ x → word (store m x 8 v) w = word m w := by
    intro w hw hne; rw [word_poke (by omega) hw hv, if_neg hne]
  refine ⟨sameOff_store fun y k1 k2 => ⟨c, hc, by omega, by omega⟩, fun o' ho' hne w hw => ?_,
    fun o' ho' a ha w hw => ?_⟩
  · obtain ⟨-, -, -, -, -, k1, -⟩ := hl.object_spec hg ho'
    have k2 := hl.object_apart hg ho' ho hne
    unfold Heap.Apart at k2
    simp only at k2
    exact hpoke w (by omega) (by omega)
  · obtain ⟨k1, k2, k3, -⟩ := hg.payload_spec (hl.area_live ho' ha)
    obtain ⟨k4, k5, k6⟩ := hw.bounds k1 k2 k3
    have k7 := hl.object_area_apart hg ho ho' ha
    unfold Heap.Apart at k7
    simp only at k7
    exact hpoke w k4 (by omega)

theorem takeFree_run {o : Nat} (h : Inv dbg s objs regions live carves (o :: F) areas A) :
    ∃ s', takeFree dbg s.freeAlls s = .ok o s' ∧ Inv dbg s' (o :: objs) (Function.update regions o []) live carves F
      (Function.update areas o []) A ∧ s'.heap.heapEnd = s.heap.heapEnd := by
  have hhead : s.freeAlls = o := h.books.free.1
  have hmem : o ∈ o :: F ∨ o ∈ objs := .inl (List.mem_cons_self ..)
  have hnd : (o :: F ++ objs).Nodup := h.layout.nodup
  simp only [List.cons_append, List.nodup_cons, List.mem_append, not_or] at hnd
  obtain ⟨-, -, -, -, -, ho8, ho0, ho64⟩ := h.layout.object_spec h.heap hmem
  -- the two words of the object are written, one after the other
  obtain ⟨p1, p2, p3⟩ := h.layout.object_poke h.heap hmem (.inr rfl) (v := 0) (by norm_num) s.heap.mem
  obtain ⟨q1, q2, q3⟩ := h.layout.object_poke h.heap hmem (.inl rfl) (v := 0) (by norm_num)
    (store s.heap.mem (o + 8) 8 0)
  refine ⟨{ heap := { s.heap with mem := store (store s.heap.mem (o + 8) 8 0) o 8 0 },
            freeAlls := getNext s.heap.mem o }, ?_, ⟨h.heap.write (p1.trans q1), h.layout.takeFree, ?_⟩, rfl⟩
  · unfold takeFree allocatorInit
    rw [hhead, Exec.bind_ok (kernelAssertD_pos ho0 dbg _ s), Exec.bind_ok (Exec.modify_run _ _),
      Exec.bind_ok (poke_run _ _ _), Exec.bind_ok (poke_run _ _ _)]
    rfl
  · refine h.books.takeFree ?_ (fun o' ho' => ?_) (fun o' ho' => ?_) (fun o' ho' a ha w hw => ?_) hnd.1.2
    · show word _ o = _
      rw [word_poke ho8 ho8 (by norm_num), if_pos rfl]
    · have hm : o' ∈ o :: F ∨ o' ∈ objs := .inl (List.mem_cons_of_mem _ ho')
      have hne : o' ≠ o := fun e => hnd.1.1 (e ▸ ho')
      exact (q2 o' hm hne _ (.inr rfl)).trans (p2 o' hm hne _ (.inr rfl))
    · have hne : o' ≠ o := fun e => hnd.1.2 (e ▸ ho')
      exact (q2 o' (.inr ho') hne _ (.inl rfl)).trans (p2 o' (.inr ho') hne _ (.inl rfl))
    · exact (q3 o' ho' a ha w hw).trans (p3 o' ho' a ha w hw)

/-- `mm_allocator_new` returns an object that is not in use; the heap must have a block for a carving if
no object is free. -/
theorem mmAllocatorNew_run (h : Inv dbg s objs regions live carves F areas A)
    (hgrow : s.freeAlls = 0 → Heap.GrowsFor pg 1 s.heap) :
    ∃ o s' live' carves' F' A', mmAllocatorNew dbg pg s = .ok o s' ∧
      Inv dbg s' (o :: objs) (Function.update regions o []) live' carves' F' (Function.update areas o []) A' ∧
      s'.heap.heapEnd ≤ s.heap.heapEnd + 2 ^ 27 := by
  unfold mmAllocatorNew
  rw [Exec.bind_ok (Exec.get_run s)]
  by_cases hnull : s.freeAlls = 0
  · obtain rfl : F = [] := h.books.free.eq_nil_iff.1 hnull
    have hadm : Heap.Admissible 1 := ⟨by omega, by unfold Heap.sizeofBlock; omega⟩
    obtain ⟨p, hs, A', hrun, hg, -, -, -, hsame, hend⟩ := h.heap.alloc dbg hadm (hgrow hnull)
    have hlen : (Heap.payload p (Heap.freeClassOf 1)).2 = 4072 := by
      rw [show Heap.freeClassOf 1 = 0 by decide]; rfl
    generalize Heap.payload p (Heap.freeClassOf 1) = c at *
    obtain ⟨h1, h2, h3, h4, h5, h6, h7⟩ := hg.payload_spec (List.mem_cons_self ..)
    have hnew : c ∉ live := (List.nodup_cons.1 hg.nodup).1
    obtain ⟨m, g, hcarve, hch, hoff⟩ := carveLoop_run (c := c.1) h1 (by omega) h6 (n := 16) (i := 0) (f := c.2 + 1)
      (s := { s with heap := hs }) (by omega) (by omega) (by simp only; omega) (by exact hnull)
    -- no other heap allocation is touched
    have hout : ∀ x, InPayload live x → m x = s.heap.mem x := by
      rintro x ⟨a, ha, hx⟩
      have hap := hg.apart_of_ne (List.mem_cons_self ..) (List.mem_cons_of_mem _ ha) fun e => hnew (e ▸ ha)
      unfold Heap.Apart at hap
      rw [hoff x (by omega)]
      exact hsame x ⟨a, ha, hx⟩
    have hbooks := h.books.of_payloads (fun _ h => h) h.layout h.heap hout
    have hinv : Inv dbg { heap := { hs with mem := m }, freeAlls := g } objs regions (c :: live) (c :: carves)
        (carved c.1 16) areas A' :=
      ⟨hg.write (hoff.mono fun x hx => ⟨c, List.mem_cons_self .., hx.1, by omega⟩), h.layout.carve hg hlen,
        ⟨hch, hbooks.list, hbooks.area, hbooks.use, hbooks.region, hbooks.apart⟩⟩
    rw [carved_succ] at hinv
    obtain ⟨s', hs', hinv', hend'⟩ := takeFree_run hinv
    refine ⟨_, s', _, _, _, _, ?_, hinv', by rw [hend']; exact hend⟩
    rw [show objectAt c.1 0 = c.1 from rfl, hlen] at hcarve
    rw [if_pos hnull, show Heap.mmHeapAllocMinimum dbg pg = Heap.mmHeapAlloc dbg pg 1 from rfl,
      Exec.bind_ok (onHeap_run hrun), Exec.bind_ok (mmAlignUp_ptr h1 (by omega) _),
      Exec.bind_ok (kernelAssertD_pos ?_ dbg _ _)]
    · rw [hlen, Exec.bind_ok hcarve, Exec.bind_ok (Exec.get_run _)]
      exact hs'
    · unfold sizeofAllocator
      rw [u64_of_lt (by omega), u64Sub_of_le (by omega) (by omega)]
      omega
  · rw [if_neg hnull]
    cases hF : F with
    | nil =>
      have := h.books.free
      rw [hF] at this
      exact absurd this hnull
    | cons o F' =>
      rw [hF] at h
      obtain ⟨s', hs', hinv', hend'⟩ := takeFree_run h
      exact ⟨o, s', _, _, _, _, hs', hinv', by omega⟩

/-! ## Giving an allocator back -/

/-- The loop of `mm_allocator_free` returns the areas of the list to the heap; the other heap allocations
keep their bytes. -/
theorem freeAreasLoop_run (dbg : Bool) {o : Nat} : ∀ {l live : List (Nat × Nat)} {A : Buddy.St} {a f : Nat} {s : AllState σ},
    Heap.Good s.heap live A → Chain 0 (getPrevArea s.heap.mem) a (l.map Prod.fst) →
    (∀ x ∈ l, x ∈ live ∧ AreaWords s.heap.mem o x) → l.Nodup → l.length < f →
    ∃ hs live' A', freeAreasLoop dbg o f a s = .ok () { s with heap := hs } ∧ Heap.Good hs live' A' ∧
      (∀ x, x ∈ live' ↔ x ∈ live ∧ x ∉ l) ∧ (∀ x, InPayload live' x → hs.mem x = s.heap.mem x) ∧
      hs.heapEnd = s.heap.heapEnd := by
  intro l
  induction l with
  | nil =>
    intro live A a f s hg hch _ _ hf
    obtain ⟨f, rfl⟩ := Nat.exists_eq_add_one_of_ne_zero (Nat.ne_of_gt hf)
    refine ⟨s.heap, live, A, ?_, hg, by simp, fun _ _ => rfl, rfl⟩
    rw [freeAreasLoop, if_pos (chain_nil.1 hch)]
    rfl
  | cons b l ih =>
    intro live A a f s hg hchain hl hnd hf
    obtain ⟨hab, hb0, hch⟩ := hchain
    obtain ⟨f, rfl⟩ := Nat.exists_eq_add_one_of_ne_zero (Nat.ne_of_gt (Nat.zero_lt_of_lt hf))
    obtain ⟨hbl, hw⟩ := hl b (List.mem_cons_self ..)
    obtain ⟨hnb, hnd'⟩ := List.nodup_cons.1 hnd
    obtain ⟨h1, h2, h3, h4, h5, h6, -⟩ := hg.payload_spec hbl
    obtain ⟨p, c, hp, rfl⟩ := hg.owned.1 hbl
    obtain ⟨hs, A1, hrun, hg1, -, hsame, hend⟩ := hg.free dbg hp
    generalize Heap.payload p c = b at *
    have hmem : ∀ x ∈ l, x ∈ live.erase b := fun x hx =>
      (hg.nodup.mem_erase_iff).2 ⟨fun e => hnb (e ▸ hx), (hl x (List.mem_cons_of_mem _ hx)).1⟩
    -- the areas still on the list keep their words
    have hkeep : ∀ x ∈ l, ∀ w, AreaWord x w → word hs.mem w = word s.heap.mem w := by
      intro x hx w hxw
      obtain ⟨k1, k2, k3, -⟩ := hg1.payload_spec (hmem x hx)
      obtain ⟨-, k4, k5⟩ := hxw.bounds k1 k2 k3
      exact word_same hsame (hmem x hx) k4 k5
    obtain ⟨hs', live', A', hrun', hg', hlive', hsame', hend'⟩ := ih (f := f) (s := { s with heap := hs }) hg1
      (hch.congr fun x hx => by
        obtain ⟨y, hy, rfl⟩ := List.mem_map.1 hx
        exact hkeep y hy _ (.inr (.inr (.inr (.inl rfl)))))
      (fun x hx => ⟨hmem x hx, (hl x (List.mem_cons_of_mem _ hx)).2.congr fun w hw => hkeep x hx w (.of_fixed hw)⟩)
      hnd' (by simpa using hf)
    refine ⟨hs', live', A', ?_, hg', fun x => ?_, fun x hx => ?_, hend'.trans hend⟩
    · have hguard : areaBlockEnd s.heap.mem b.1 = b.1 + b.2 - 8 := by
        unfold areaBlockEnd
        rw [hw.block, hw.blockLen]
        unfold sizeofArea
        rw [u64_of_lt (by omega)]
        omega
      rw [freeAreasLoop, hab, if_neg h6, Exec.bind_ok (Exec.get_run s),
        Exec.bind_ok (kernelAssertD_pos ?_ dbg _ s), Exec.bind_ok (kernelAssertD_pos ?_ dbg _ s),
        Exec.bind_ok (onHeap_run hrun)]
      · exact hrun'
      · rw [hguard]; exact hw.guard
      · unfold mmAlignCheck sizeofPtr
        simp only [hguard, decide_eq_true_eq]
        omega
    · rw [hlive', hg.nodup.mem_erase_iff, List.mem_cons]; tauto
    · rw [hsame' x hx]
      obtain ⟨y, hy, hxy⟩ := hx
      exact hsame x ⟨y, ((hlive' y).1 hy).1, hxy⟩

/-- The object is free and its areas are gone. -/
theorem Layout.putFree (hl : Layout live carves objs F areas) {o : Nat} (ho : o ∈ objs) {live' : List (Nat × Nat)}
    (hlive : ∀ x, x ∈ live' ↔ x ∈ live ∧ x ∉ areas o) : Layout live' carves (objs.erase o) (o :: F) areas := by
  have hobjs : objs.Nodup := (List.nodup_append.1 hl.nodup).2.1
  have hmem : ∀ {o'}, o' ∈ objs.erase o ↔ o' ≠ o ∧ o' ∈ objs := hobjs.mem_erase_iff
  refine ⟨fun {a} => ?_, hl.carveLen, fun {o'} => ?_, ?_, fun h1 => hl.areasNodup (hmem.1 h1).2,
    fun h1 h2 => hl.owner (hmem.1 h1).2 (hmem.1 h2).2, fun h1 => hl.notCarve (hmem.1 h1).2⟩
  · rw [hlive, hl.live]
    constructor
    · rintro ⟨h1 | ⟨o', h1, h2⟩, h3⟩
      · exact .inl h1
      · refine .inr ⟨o', hmem.2 ⟨?_, h1⟩, h2⟩
        rintro rfl
        exact h3 h2
    · rintro (h1 | ⟨o', h1, h2⟩)
      · exact ⟨.inl h1, fun h2 => hl.notCarve ho h2 h1⟩
      · obtain ⟨hne, h1⟩ := hmem.1 h1
        exact ⟨.inr ⟨o', h1, h2⟩, fun h3 => hne (hl.owner h1 ho h2 h3)⟩
  · rw [← hl.object, List.mem_cons, hmem]
    constructor
    · rintro ((rfl | h1) | ⟨-, h1⟩)
      · exact .inr ho
      · exact .inl h1
      · exact .inr h1
    · rintro (h1 | h1)
      · exact .inl (.inr h1)
      · by_cases e : o' = o
        · exact .inl (.inl e)
        · exact .inr ⟨e, h1⟩
  · have hp : (F ++ objs).Perm (F ++ o :: objs.erase o) := (List.perm_cons_erase ho).append_left F
    exact (List.perm_middle.nodup_iff).1 (hp.nodup_iff.1 hl.nodup)

/-- `mm_allocator_free` of a live allocator returns its areas to the heap and the object to `_free_alls`;
no guard assertion fails. -/
theorem mmAllocatorFree_run (h : Inv dbg s objs regions live carves F areas A) {o : Nat} (ho : o ∈ objs) :
    ∃ s' live' A', mmAllocatorFree dbg o s = .ok () s' ∧
      Inv dbg s' (objs.erase o) regions live' carves (o :: F) areas A' ∧
      (∀ x, x ∈ live' ↔ x ∈ live ∧ x ∉ areas o) ∧ s'.heap.heapEnd = s.heap.heapEnd := by
  have hobjs : objs.Nodup := (List.nodup_append.1 h.layout.nodup).2.1
  obtain ⟨-, -, -, -, -, ho8, ho0, ho64⟩ := h.layout.object_spec h.heap (.inr ho)
  have hfuel : (areas o).length < (s.heap.heapEnd - va48Heap) / pageSize4K + 1 := by
    have h1 := ((h.layout.areasNodup ho).subperm fun x hx => h.layout.area_live ho hx).length_le
    have h2 := h.heap.length_le
    omega
  have hfree64 : s.freeAlls < 2 ^ 64 := by
    cases hF : F with
    | nil => have := h.books.free; rw [hF] at this; rw [chain_nil.1 this]; norm_num
    | cons o' F' =>
      have := h.books.free
      rw [hF] at this
      obtain ⟨-, -, -, -, -, -, -, h64⟩ := h.layout.object_spec h.heap (o := o') (.inl (hF ▸ List.mem_cons_self ..))
      rw [this.1]; omega
  obtain ⟨hs, live', A', hrun, hg, hlive, hsame, hend⟩ := freeAreasLoop_run dbg (o := o) h.heap (h.books.list ho)
    (fun x hx => ⟨h.layout.area_live ho hx, h.books.area ho hx⟩) (h.layout.areasNodup ho) hfuel
  have hl := h.layout.putFree ho hlive
  have hmem : o ∈ o :: F ∨ o ∈ objs.erase o := .inl (List.mem_cons_self ..)
  have hnd : (o :: F ++ objs.erase o).Nodup := hl.nodup
  simp only [List.cons_append, List.nodup_cons, List.mem_append, not_or] at hnd
  -- the two words of the object are written, one after the other
  obtain ⟨p1, p2, p3⟩ := hl.object_poke hg hmem (.inl rfl) (v := 0) (by norm_num) hs.mem
  obtain ⟨q1, q2, q3⟩ := hl.object_poke hg hmem (.inr rfl) hfree64 (store hs.mem o 8 0)
  refine ⟨{ heap := { hs with mem := store (store hs.mem o 8 0) (o + 8) 8 s.freeAlls }, freeAlls := o }, live', A', ?_,
    ⟨hg.write (p1.trans q1), hl, ?_⟩, hlive, hend⟩
  · unfold mmAllocatorFree
    rw [Exec.bind_ok (Exec.get_run s), Exec.bind_ok hrun, Exec.bind_ok (poke_run _ _ _), Exec.bind_ok (Exec.get_run _),
      Exec.bind_ok (poke_run _ _ _)]
    rfl
  · have hbooks : Books dbg hs.mem s.freeAlls (objs.erase o) F regions areas :=
      (h.books.mono fun _ h1 => List.mem_of_mem_erase h1).of_payloads (fun _ h1 => List.mem_cons_of_mem _ h1) hl hg hsame
    refine (hbooks.congr (fun o' ho' => ?_) (fun o' ho' => ?_) fun o' ho' a ha w hw => ?_).putFree ho0 ?_
    · have hm : o' ∈ o :: F ∨ o' ∈ objs.erase o := .inl (List.mem_cons_of_mem _ ho')
      have hne : o' ≠ o := fun e => hnd.1.1 (e ▸ ho')
      exact (q2 o' hm hne _ (.inr rfl)).trans (p2 o' hm hne _ (.inr rfl))
    · have hne : o' ≠ o := fun e => hnd.1.2 (e ▸ ho')
      exact (q2 o' (.inr ho') hne _ (.inl rfl)).trans (p2 o' (.inr ho') hne _ (.inl rfl))
    · exact (q3 o' ho' a ha w hw).trans (p3 o' ho' a ha w hw)
    · show word _ (o + 8) = _
      rw [word_poke (by omega) (by omega) hfree64, if_pos rfl]

end Lifecycle

end Cing.Allocator
