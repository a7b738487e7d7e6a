/-
The heap's memory. mm_heap.c reads and writes its area as if it were one flat memory; what it has are pages,
each behind tables that mm_page.c keeps changing. Through any calls of others, and while the heap grows, a load
from the area returns what was last stored there. The release build does not check that it got a frame for each
page, so there the heap must grow only while there are enough.
-/
import Cing.Mm.Backing
import Cing.Mm.Page.Private

namespace Cing.Backing

open Heap (expandHeapLoop)
open Page (Inv Unused NotInUse OnFreeList IsTable SamePage SameFrame Call Enough lookup translate key withWord readVa writeVa)

variable {im : Image} {t t' : Pool} {e va : Nat} {F : List Nat} {dbg : Bool}

/-! ## Calls by others -/

/-- The call maps and unmaps no page of the area of the heap, and gives no frame of the heap back. -/
def Outside (im : Image) (e : Nat) (p : PageState) : Call → Prop
  | .alloc => True
  | .free _ f => ¬ OfHeap im e p f
  | .map va _ => OutsideHeap va
  | .unmap va _ freeFrame => OutsideHeap va ∧
      (freeFrame = true → ∀ l, lookup p.mem im.tab4 va = some l → ∀ f ∈ l.frames, ¬ OfHeap im e p f)

/-- The frame of a page of the heap. -/
theorem Backs.ofHeap {f : Nat} (h : Backs im t e F) (hf : OfHeap im e t.page f) : HeapFrame im t F f := by
  obtain ⟨va, l, h1, h2, hl, rfl⟩ := hf
  obtain ⟨f, hf, hva⟩ := h.page va h1 h2
  obtain rfl : l = ⟨f, true, false⟩ := Option.some.inj (hl.symm.trans hva)
  exact hf

theorem Backs.leaves {c : Call} (h : Backs im t e F) (hc : Outside im e t.page c) (h1 : va48Heap ≤ va) (h64 : va < 2 ^ 64) :
    c.Leaves im t.page va := by
  cases c with
  | alloc => trivial
  | free va' f => trivial
  | map va' pa => exact hc va h1 h64
  | unmap va' size freeFrame =>
    intro l hl hs
    -- the address would have this leaf
    have hx := h.inv.tree.lookup_of_path hl hs
    by_cases he : va < e
    · obtain ⟨f, -, hf⟩ := h.page va h1 he
      obtain rfl : l = ⟨f, true, false⟩ := Option.some.inj (hx.symm.trans hf)
      exact hc.1 va h1 h64 (Page.samePage_path.2 hs)
    · rw [h.above va (by omega) h64] at hx
      cases hx

theorem Outside.spares {c : Call} {p : PageState} {f : Nat} (hc : Outside im e p c) (hf : OfHeap im e p f) : c.Spares im p f := by
  cases c with
  | alloc => trivial
  | free va' f' => exact fun he => hc (he ▸ hf)
  | map va' pa => trivial
  | unmap va' size freeFrame => exact fun hfr l hl hm => hc.2 hfr l hl f hm hf

/-- The heap stays backed by the same frames, which hold what they held. -/
structure Untouched (im : Image) (e : Nat) (p p' : PageState) : Prop where
  lookup : ∀ va, va48Heap ≤ va → va < e → Page.lookup p'.mem im.tab4 va = Page.lookup p.mem im.tab4 va
  frames : ∀ f, OfHeap im e p f → SameFrame f p p'

/-- A call of others. -/
theorem Backs.call {c : Call} (h : Backs im t e F) (hadm : c.Admitted im t.page) (hout : Outside im e t.page c)
    (hrun : onPage (c.code im) t = .ok () t') : (∃ F', Backs im t' e F') ∧ Untouched im e t.page t'.page := by
  obtain ⟨p, hp, rfl⟩ := Exec.zoom_eq_ok.1 hrun
  obtain ⟨-, h64, -⟩ := h.bound
  obtain ⟨F', hinv⟩ := Call.keeps h.inv hadm hp
  have hlook : ∀ va, va48Heap ≤ va → va < 2 ^ 64 → lookup p.mem im.tab4 va = lookup t.page.mem im.tab4 va := fun va h1 h2 =>
    Call.keepsLookup h.inv hadm (h.leaves hout h1 h2) hp
  -- the list after the call is the one of `hinv`
  have hkept : ∀ f, OfHeap im e t.page f → Unused im p F' f ∧ SameFrame f t.page p := by
    intro f hf
    obtain ⟨F₁, hinv₁, hu, hsame⟩ := Call.keepsFrame h.inv hadm (hout.spares hf) (h.ofHeap hf).unused hp
    obtain rfl : F₁ = F' := hinv₁.chain.unique hinv.chain
    exact ⟨hu, hsame⟩
  refine ⟨⟨F', h.keep hinv hlook (fun f hf _ => (hkept f hf).1) fun _ hx => hx⟩, fun va h1 h2 => hlook va h1 (by omega),
    fun f hf => (hkept f hf).2⟩

/-- A word written outside the heap. -/
theorem Backs.write {x : Nat} (h : Backs im t e F) (v : Nat) (ht : ∀ c, IsTable im t.page c → x < c ∨ c + 4096 ≤ x)
    (hf : ¬ OnFreeList t.page x) (hx : ∀ f, OfHeap im e t.page f → x < f ∨ f + 4096 ≤ x) :
    (∃ F', Backs im { t with page := withWord t.page x v } e F') ∧ Untouched im e t.page (withWord t.page x v) := by
  obtain ⟨hinv, hnode, hlook⟩ := h.inv.after_write v ht hf
  refine ⟨⟨F, h.keep hinv (fun va _ _ => hlook va) (fun f _ hu => ?_) fun _ hm => hm⟩, fun va _ _ => hlook va,
    fun f hm => .word (hx f hm) _ _⟩
  exact hu.mono id fun ⟨q, hq⟩ => .inl ⟨q, (hnode q).symm.trans hq⟩

/-- One page more leaves the pages there are alone. -/
theorem Backs.grow_untouched {f : Nat} {t₁ : Pool} (h : Backs im t e F) (he : e + 4096 < 2 ^ 64)
    (halloc : mmFrameAlloc im t = .ok (some f) t₁) (hmap : onPage (Page.mmPageMap im e f) t₁ = .ok true t') :
    Untouched im e t.page t'.page := by
  obtain ⟨hlo, -, heal⟩ := h.bound
  obtain ⟨p, hrun₁, rfl⟩ := mmFrameAlloc_ok halloc
  obtain ⟨p', hrun₂, rfl⟩ := Exec.zoom_eq_ok.1 hmap
  obtain ⟨F, rfl, hpage, rfl⟩ := Page.mmFrameAlloc_some h.inv hrun₁
  obtain ⟨hpop, -⟩ := h.inv.pop
  have hw := heap_not_window hlo (show e < 2 ^ 64 by omega)
  have hnone : lookup (Page.popFrame t.page).mem im.tab4 e = none := h.above e le_rfl (by omega)
  obtain ⟨F', N, h', hF, -, hok⟩ := Page.mmPageMap_ok hpop heal hw hnone hpage hrun₂
  refine ⟨fun va h1 h2 => (hok rfl).elsewhere va fun hs => ?_, fun g hg => ?_⟩
  · have := samePage_heap h1 (by omega) hlo (by omega) hs
    unfold pageSize4K at this
    omega
  · have hu := (h.ofHeap hg).unused
    have hu₁ : Unused im (Page.popFrame t.page) F g := hu.mono (fun hn hx => hn (List.mem_cons_of_mem _ hx)) .inl
    have hsame : SameFrame g (Page.popFrame t.page) p' := Page.mmPageMap_same hpop heal hw hnone hpage hu₁ hrun₂
    exact hsame

/-! ## Words of the heap -/

/-- The address of a word of the heap. -/
structure HeapWord (e va : Nat) : Prop where
  low : va48Heap ≤ va
  high : va < e
  align : va % 8 = 0

/-- Where the word lies in physical memory. -/
theorem Backs.translate (h : Backs im t e F) (hva : HeapWord e va) : ∃ f, OfHeap im e t.page f ∧
    lookup t.page.mem im.tab4 va = some ⟨f, true, false⟩ ∧ Page.translate t.page.mem im.tab4 va = some (f + va % 4096) := by
  obtain ⟨f, -, hl⟩ := h.page va hva.low hva.high
  refine ⟨f, ⟨va, _, hva.low, hva.high, hl, rfl⟩, hl, ?_⟩
  unfold Page.translate
  rw [hl]
  rfl

/-- Two words of the heap lie in different places. -/
theorem Backs.translate_inj (h : Backs im t e F) {va' pa : Nat} (hva : HeapWord e va) (hva' : HeapWord e va')
    (ht : Page.translate t.page.mem im.tab4 va = some pa) (ht' : Page.translate t.page.mem im.tab4 va' = some pa) : va = va' := by
  obtain ⟨f, hf, hl, htr⟩ := h.translate hva
  obtain ⟨f', hf', hl', htr'⟩ := h.translate hva'
  have hal := (h.ofHeap hf).unused.frame.align
  have hal' := (h.ofHeap hf').unused.frame.align
  have e1 := Option.some.inj (ht.symm.trans htr)
  have e2 := Option.some.inj (ht'.symm.trans htr')
  obtain rfl : f = f' := by omega
  have hpage := h.distinct va va' _ hva.low hva.high hva'.low hva'.high hl hl'
  unfold pageSize4K at hpage
  omega

/-- The memory behind the pages holds the words of `m`. -/
def Holds (im : Image) (t : Pool) (e : Nat) (m : Nat → Option Nat) : Prop :=
  ∀ va v, m va = some v → HeapWord e va ∧ ∃ pa, Page.translate t.page.mem im.tab4 va = some pa ∧ t.page.mem pa = v

theorem Untouched.holds {m : Nat → Option Nat} (hu : Untouched im e t.page t'.page) (h : Backs im t e F) (hm : Holds im t e m) :
    Holds im t' e m := by
  intro va v hv
  obtain ⟨hva, pa, htr, hpa⟩ := hm va v hv
  obtain ⟨f, hf, hl, htr'⟩ := h.translate hva
  obtain rfl : pa = f + va % 4096 := Option.some.inj (htr.symm.trans htr')
  refine ⟨hva, f + va % 4096, ?_, ?_⟩
  · unfold Page.translate
    rw [hu.lookup va hva.low hva.high]
    exact htr
  · have hal := hva.align
    rw [hu.frames f hf _ (by omega) (by omega)]
    exact hpa

/-- A store through the page tables. -/
theorem Backs.store {m : Nat → Option Nat} (h : Backs im t e F) (hm : Holds im t e m) (hva : HeapWord e va) (v : Nat) :
    ∃ t', onPage (writeVa im va v) t = .ok () t' ∧ (∃ F', Backs im t' e F') ∧ Holds im t' e (Function.update m va (some v)) := by
  obtain ⟨f, hf, hl, htr⟩ := h.translate hva
  have hu := (h.ofHeap hf).unused
  obtain ⟨hno, hfree⟩ := hu.word h.inv (x := f + va % 4096) (by omega) (by omega)
  obtain ⟨hinv, hnode, hlook⟩ := h.inv.after_write v hno hfree
  refine ⟨{ t with page := withWord t.page (f + va % 4096) v }, Exec.zoom_eq_ok.2 ⟨_, Page.writeVa_run v htr, rfl⟩,
    ⟨F, h.keep hinv (fun x _ _ => hlook x) (fun x _ hu => ?_) fun _ hx => hx⟩, fun va' w hw => ?_⟩
  · exact hu.mono id fun ⟨q, hq⟩ => .inl ⟨q, (hnode q).symm.trans hq⟩
  · have htr' : ∀ x, Page.translate (withWord t.page (f + va % 4096) v).mem im.tab4 x = Page.translate t.page.mem im.tab4 x := by
      intro x
      unfold Page.translate
      rw [hlook x]
    by_cases he : va' = va
    · subst he
      rw [Function.update_self] at hw
      cases hw
      exact ⟨hva, _, (htr' va').trans htr, Page.withWord_self _ _ _⟩
    · rw [Function.update_of_ne he] at hw
      obtain ⟨hva', pa, hpa, hmem⟩ := hm va' w hw
      refine ⟨hva', pa, (htr' va').trans hpa, ?_⟩
      have hne : pa ≠ f + va % 4096 := fun e' => he (h.translate_inj hva' hva hpa (e' ▸ htr))
      exact (Function.update_of_ne hne _ _).trans hmem

/-! ## The loop of `_expand_heap` -/

theorem expandHeapLoop_holds {b : Nat} {m : Nat → Option Nat} : ∀ {n a : Nat} {t : Pool} {F : List Nat},
    Backs im t (b + a) F → Holds im t (b + a) m → b + a + n * pageSize4K < 2 ^ 64 → (dbg = false → Enough im t.page (b + a) n) →
    expandHeapLoop dbg (paging im) b n a t = .ok () t' →
    (∃ F', Backs im t' (b + a + n * pageSize4K) F') ∧ Holds im t' (b + a + n * pageSize4K) m
  | 0, a, t, F, h, hm, _, _, hrun => by
    cases hrun
    rw [Nat.zero_mul]
    exact ⟨⟨F, h⟩, hm⟩
  | n + 1, a, t, F, h, hm, h64, henough, hrun => by
    obtain ⟨f, t₁, t₂, halloc, hmap, hnext, hrest⟩ := h.loop_round h64 henough hrun
    rw [show b + a + (n + 1) * pageSize4K = b + (a + pageSize4K) + n * pageSize4K by rw [Nat.add_mul]; omega] at h64 ⊢
    have he : b + a + 4096 < 2 ^ 64 := by unfold pageSize4K at h64; omega
    obtain ⟨F', hstep⟩ := h.grow he halloc hmap
    have hm' : Holds im t₂ (b + a + pageSize4K) m := by
      intro va v hv
      obtain ⟨hva, hpa⟩ := (h.grow_untouched he halloc hmap).holds h hm va v hv
      exact ⟨⟨hva.low, hva.high.trans_le (Nat.le_add_right _ _), hva.align⟩, hpa⟩
    rw [Nat.add_assoc] at hstep hm'
    exact expandHeapLoop_holds hstep hm' h64 hnext hrest

/-! ## Runs -/

/-- Runs from boot on, with the end of the heap and the words stored in it so far: stores through the page tables, rounds
of `_expand_heap` (in the release build with enough frames), calls of others, and writes of others outside the heap. -/
inductive Memory (im : Image) (dbg : Bool) : Pool → Nat → (Nat → Option Nat) → Prop
  | boot {t : Pool} : Page.Reach im t.page → (∀ va, va48Heap ≤ va → va < 2 ^ 64 → lookup t.page.mem im.tab4 va = none) →
      Memory im dbg t va48Heap fun _ => none
  | store {t t' : Pool} {e va v : Nat} {m : Nat → Option Nat} : Memory im dbg t e m → HeapWord e va →
      onPage (writeVa im va v) t = .ok () t' → Memory im dbg t' e (Function.update m va (some v))
  | expand {t t' : Pool} {e n : Nat} {m : Nat → Option Nat} : Memory im dbg t e m → e + n * pageSize4K < 2 ^ 64 →
      (dbg = false → Enough im t.page e n) → expandHeapLoop dbg (paging im) e n 0 t = .ok () t' →
        Memory im dbg t' (e + n * pageSize4K) m
  | call {t t' : Pool} {e : Nat} {m : Nat → Option Nat} {c : Call} : Memory im dbg t e m → c.Admitted im t.page →
      Outside im e t.page c → onPage (c.code im) t = .ok () t' → Memory im dbg t' e m
  | write {t : Pool} {e x v : Nat} {m : Nat → Option Nat} : Memory im dbg t e m →
      (∀ c, IsTable im t.page c → x < c ∨ c + 4096 ≤ x) →
      ¬ OnFreeList t.page x → (∀ f, OfHeap im e t.page f → x < f ∨ f + 4096 ≤ x) →
      Memory im dbg { t with page := withWord t.page x v } e m

theorem Memory.holds {m : Nat → Option Nat} (h : Memory im dbg t e m) : (∃ F, Backs im t e F) ∧ Holds im t e m := by
  induction h with
  | boot h hnone =>
    have hva := va48Heap_eq
    obtain ⟨F, hinv⟩ := h.inv
    refine ⟨⟨F, hinv, ⟨le_rfl, by omega, by omega⟩, fun va h1 h2 => ?_, fun va _ _ h1 h2 => ?_, hnone⟩, nofun⟩
    · exact absurd h2 (Nat.not_lt.2 h1)
    · exact absurd h2 (Nat.not_lt.2 h1)
  | store _ hva hrun ih =>
    obtain ⟨⟨F, hb⟩, hm⟩ := ih
    obtain ⟨t', hrun', hb', hm'⟩ := hb.store hm hva _
    rw [hrun] at hrun'
    cases hrun'
    exact ⟨hb', hm'⟩
  | expand _ h64 henough hrun ih =>
    obtain ⟨⟨F, hb⟩, hm⟩ := ih
    exact expandHeapLoop_holds (a := 0) hb hm h64 henough hrun
  | call _ hadm hout hrun ih =>
    obtain ⟨⟨F, hb⟩, hm⟩ := ih
    obtain ⟨hb', hu⟩ := hb.call hadm hout hrun
    exact ⟨hb', hu.holds hb hm⟩
  | write _ ht hf hx ih =>
    obtain ⟨⟨F, hb⟩, hm⟩ := ih
    obtain ⟨hb', hu⟩ := hb.write _ ht hf hx
    exact ⟨hb', hu.holds hb hm⟩

/-- The pages of the heap are one flat memory: in every run, of the debug build or of a release build that has enough frames
whenever the heap grows, each word stored in the area is read back as it was stored last, and every word of the area can be
stored. -/
theorem heap_memory_flat {m : Nat → Option Nat} (h : Memory im dbg t e m) :
    (∀ va v, m va = some v → onPage (readVa im va) t = .ok v t) ∧
      ∀ va v, HeapWord e va → ∃ t', onPage (writeVa im va v) t = .ok () t' ∧
        Memory im dbg t' e (Function.update m va (some v)) := by
  obtain ⟨⟨F, hb⟩, hm⟩ := h.holds
  refine ⟨fun va v hv => ?_, fun va v hva => ?_⟩
  · obtain ⟨-, pa, htr, hpa⟩ := hm va v hv
    exact Exec.zoom_eq_ok.2 ⟨t.page, by rw [Page.readVa_run htr, hpa], rfl⟩
  · obtain ⟨t', hrun, -⟩ := hb.store hm hva v
    exact ⟨t', hrun, h.store hva hrun⟩

/-- A heap of one page. -/
theorem heap_memory_flat_page :
    ∃ t, Memory Page.image₀ false t (va48Heap + pageSize4K) (Function.update (fun _ => none) va48Heap (some 7)) ∧
    onPage (readVa Page.image₀ va48Heap) t = .ok 7 t := by
  have hva := va48Heap_eq
  obtain ⟨p, -, hstart, hinv, hnone, -⟩ := Page.exists_start
  have hpage : ∀ f ∈ Page.frames₀, Page.IsPage f := fun f hf => (Page.frames₀_spec f hf).1.1
  have hboot : Memory Page.image₀ false ⟨p, []⟩ va48Heap fun _ => none := .boot (.start hstart) fun va _ _ => hnone va
  have henough : Enough Page.image₀ p va48Heap 1 := by
    have h1 := Page.missingRange_card_le Page.image₀ p.mem va48Heap 1
    have h0 := Page.missingRange_card_le Page.image₀ p.mem va48Heap (1 - 1)
    have hlen : Page.frames₀.length = 6 := rfl
    unfold Enough Page.mmFrameFreeCount
    rw [hinv.count, hlen]
    omega
  obtain ⟨t₁, hloop, -⟩ := expandHeapLoop_returns (b := va48Heap) (n := 1) (a := 0) (t := ⟨p, []⟩) hinv hpage le_rfl (by omega)
    (by unfold pageSize4K; omega) fun va _ _ => hnone va
  have hone := hboot.expand (n := 1) (by unfold pageSize4K; omega) (fun _ => henough) hloop
  rw [Nat.one_mul] at hone
  obtain ⟨t₂, -, hstored⟩ := (heap_memory_flat hone).2 va48Heap 7 ⟨le_rfl, by unfold pageSize4K; omega, by omega⟩
  exact ⟨t₂, hstored, (heap_memory_flat hstored).1 va48Heap 7 (Function.update_self ..)⟩

end Cing.Backing
