/-
The heap over mm_frame.c and mm_page.c. `_expand_heap` takes a frame for each new page and maps it; whether
that worked is checked in the debug build only. So every page of the heap is backed by a frame of its own in
every run of the debug build, and in every run of the release build that grows the heap only with enough
frames: one for each page, and one for each table that is missing on the way.
-/
import Cing.Mm.Heap.Pages
import Cing.Mm.Page.Count

namespace Cing.Backing

open Heap (expandHeapLoop mmHeapAlloc mmHeapFree mmHeapBootstrap freeClassOf blockMaxClass InPayload)
open Page (Inv Unused NotInUse OnFreeList IsTable Mapped Grown SamePage IsPage Enough lookup node key directVadd mmFrameFreeCount)

/-! ## The layers together -/

/-- Frames and page tables, with the frames that `mm_frame_alloc` has given out. -/
structure Pool where
  page : PageState
  given : List Nat

/-- Calls into mm_page.c. -/
def onPage {α : Type} (x : PageM α) : EStateM Stop Pool α := Exec.zoom Pool.page (fun p t => { t with page := p }) x

/-- `mm_frame_alloc`, with a note of the frame. -/
def mmFrameAlloc (im : Image) : EStateM Stop Pool (Option Nat) := do
  let r ← onPage (Page.mmFrameAlloc im)
  modify fun t => { t with given := r.toList ++ t.given }
  return r

/-- The services the heap gets from mm_frame.c and mm_page.c. -/
def paging (im : Image) : Paging Pool where
  mmFrameAlloc := mmFrameAlloc im
  mmPageMap va pa := onPage (Page.mmPageMap im va pa)

/-- Every page of the heap translates to a frame that `mm_frame_alloc` gave out, and no two pages to the same one. -/
structure Backed (im : Image) (s : HeapState Pool) : Prop where
  page : ∀ va, va48Heap ≤ va → va < s.heapEnd → ∃ f ∈ s.pg.given, lookup s.pg.page.mem im.tab4 va = some ⟨f, true, false⟩
  distinct : ∀ va va' l, va48Heap ≤ va → va < s.heapEnd → va48Heap ≤ va' → va' < s.heapEnd →
    lookup s.pg.page.mem im.tab4 va = some l → lookup s.pg.page.mem im.tab4 va' = some l → va / pageSize4K = va' / pageSize4K

variable {im : Image} {t t' : Pool} {e n va : Nat} {F : List Nat} {dbg : Bool}

/-- The note of `mm_frame_alloc`. -/
theorem mmFrameAlloc_ok {r : Option Nat} (h : mmFrameAlloc im t = .ok r t') :
    ∃ p, Page.mmFrameAlloc im t.page = .ok r p ∧ t' = ⟨p, r.toList ++ t.given⟩ := by
  unfold mmFrameAlloc at h
  obtain ⟨r, t₁, h1, h⟩ := Exec.bind_eq_ok.1 h
  obtain ⟨p, h2, rfl⟩ := Exec.zoom_eq_ok.1 h1
  cases h
  exact ⟨p, h2, rfl⟩

/-! ## Addresses -/

/-- An address that lies in no page of the area of the heap, modulo 2^48. -/
def OutsideHeap (va : Nat) : Prop := ∀ x, va48Heap ≤ x → x < 2 ^ 64 → ¬ SamePage x va

/-- Two addresses of the area of the heap lie in the same page modulo 2^48 only if they do. -/
theorem samePage_heap {x y : Nat} (hx : va48Heap ≤ x) (hx' : x < 2 ^ 64) (hy : va48Heap ≤ y) (hy' : y < 2 ^ 64) (h : SamePage x y) :
    x / pageSize4K = y / pageSize4K := by
  rw [va48Heap_eq] at hx hy
  unfold SamePage at h
  unfold pageSize4K at h ⊢
  omega

/-- No page of the area of the heap is the page of the window. -/
theorem heap_not_window (hva : va48Heap ≤ va) (h64 : va < 2 ^ 64) : ¬ SamePage va directVadd := by
  have hd : directVadd = 18446603340532940800 := rfl
  rw [va48Heap_eq] at hva
  unfold SamePage pageSize4K
  rw [hd]
  omega

/-! ## The pages of the heap -/

/-- A frame given out by `mm_frame_alloc` that is not free and not a table. -/
structure HeapFrame (im : Image) (t : Pool) (F : List Nat) (f : Nat) : Prop where
  unused : Unused im t.page F f
  low : f ≤ va48LowEnd
  given : f ∈ t.given

/-- The pages from the start of the heap up to `e` are mapped to frames of their own, and no page above is mapped. -/
structure Backs (im : Image) (t : Pool) (e : Nat) (F : List Nat) : Prop where
  inv : Inv im t.page F
  bound : va48Heap ≤ e ∧ e < 2 ^ 64 ∧ e % 4096 = 0
  page : ∀ va, va48Heap ≤ va → va < e → ∃ f, HeapFrame im t F f ∧ lookup t.page.mem im.tab4 va = some ⟨f, true, false⟩
  distinct : ∀ va va' l, va48Heap ≤ va → va < e → va48Heap ≤ va' → va' < e →
    lookup t.page.mem im.tab4 va = some l → lookup t.page.mem im.tab4 va' = some l → va / pageSize4K = va' / pageSize4K
  above : ∀ va, e ≤ va → va < 2 ^ 64 → lookup t.page.mem im.tab4 va = none

theorem Backs.backed {s : HeapState Pool} (h : Backs im s.pg s.heapEnd F) : Backed im s := by
  refine ⟨fun va h1 h2 => ?_, h.distinct⟩
  obtain ⟨f, hf, hl⟩ := h.page va h1 h2
  exact ⟨f, hf.given, hl⟩

/-- The frame `f` is that of a page of the heap. -/
def OfHeap (im : Image) (e : Nat) (p : PageState) (f : Nat) : Prop :=
  ∃ va l, va48Heap ≤ va ∧ va < e ∧ lookup p.mem im.tab4 va = some l ∧ l.base = f

/-- A change that keeps the translations in the area of the heap, and frees no frame of the heap or makes a table of it. -/
theorem Backs.keep {F' : List Nat} (h : Backs im t e F) (h' : Inv im t'.page F')
    (hl : ∀ va, va48Heap ≤ va → va < 2 ^ 64 → lookup t'.page.mem im.tab4 va = lookup t.page.mem im.tab4 va)
    (hu : ∀ f, OfHeap im e t.page f → Unused im t.page F f → Unused im t'.page F' f) (hg : ∀ f ∈ t.given, f ∈ t'.given) :
    Backs im t' e F' := by
  obtain ⟨hlo, h64, -⟩ := h.bound
  refine ⟨h', h.bound, fun va h1 h2 => ?_, fun va va' l h1 h2 h3 h4 hva hva' => ?_, fun va h1 h2 => ?_⟩
  · obtain ⟨f, hf, hva⟩ := h.page va h1 h2
    exact ⟨f, ⟨hu f ⟨va, _, h1, h2, hva, rfl⟩ hf.unused, hf.low, hg f hf.given⟩, (hl va h1 (by omega)).trans hva⟩
  · rw [hl va h1 (by omega)] at hva
    rw [hl va' h3 (by omega)] at hva'
    exact h.distinct va va' l h1 h2 h3 h4 hva hva'
  · rw [hl va (by omega) h2]
    exact h.above va h1 h2

/-! ## Calls by others -/

/-- Calls into mm_frame.c and mm_page.c that leave the pages and the frames of the heap alone, and writes to memory that
is neither a table nor a free frame. -/
inductive Other (im : Image) (e : Nat) : Pool → Pool → Prop
  | alloc {t t' : Pool} {r : Option Nat} : mmFrameAlloc im t = .ok r t' → Other im e t t'
  | free {t t' : Pool} {va f : Nat} : NotInUse im t.page f → ¬ OfHeap im e t.page f →
      Page.translate t.page.mem im.tab4 va = some f → onPage (Page.mmFrameFree im va f) t = .ok () t' → Other im e t t'
  | freeWindow {t t' : Pool} {f : Nat} : NotInUse im t.page f → ¬ OfHeap im e t.page f →
      onPage (Page.returnFrame im f) t = .ok () t' → Other im e t t'
  | map {t t' : Pool} {va pa : Nat} {ok : Bool} : va % 4096 = 0 → ¬ SamePage va directVadd → OutsideHeap va →
      lookup t.page.mem im.tab4 va = none → IsPage pa → onPage (Page.mmPageMap im va pa) t = .ok ok t' → Other im e t t'
  | unmap {t t' : Pool} {va pa : Nat} {l : Page.Leaf} {free : Bool} : va < 2 ^ 64 → OutsideHeap va →
      lookup t.page.mem im.tab4 va = some l → va % l.size = 0 →
      (free = true → ∀ f ∈ l.frames, NotInUse im t.page f ∧ ¬ OfHeap im e t.page f) →
      onPage (Page.unmap im va l.size free) t = .ok pa t' → Other im e t t'
  | write {t : Pool} {x v : Nat} : (∀ c, IsTable im t.page c → x < c ∨ c + 4096 ≤ x) → ¬ OnFreeList t.page x →
      Other im e t { t with page := Page.withWord t.page x v }

theorem Backs.alloc {r : Option Nat} (h : Backs im t e F) (hrun : mmFrameAlloc im t = .ok r t') : ∃ F', Backs im t' e F' := by
  obtain ⟨p, hp, rfl⟩ := mmFrameAlloc_ok hrun
  cases r with
  | none =>
    obtain ⟨-, rfl⟩ := Page.mmFrameAlloc_none h.inv hp
    exact ⟨F, h.keep h.inv (fun _ _ _ => rfl) (fun _ _ hu => hu) fun _ hf => hf⟩
  | some f =>
    obtain ⟨F, rfl, -, rfl⟩ := Page.mmFrameAlloc_some h.inv hp
    refine ⟨F, h.keep h.inv.pop.1 (fun _ _ _ => rfl) (fun x _ hu => ?_) fun _ hf => List.mem_cons_of_mem _ hf⟩
    exact hu.mono (fun hn hx => hn (List.mem_cons_of_mem _ hx)) .inl

/-- A frame that is in use nowhere goes on the list. -/
theorem Backs.push {f : Nat} (h : Backs im t e F) (hf : NotInUse im t.page f) (hheap : ¬ OfHeap im e t.page f) :
    Backs im { t with page := Page.pushFrame t.page f } e (f :: F) := by
  obtain ⟨hinv, hnode, hlook⟩ := h.inv.push (h.inv.unused hf)
  refine h.keep hinv (fun va _ _ => hlook va) (fun x hx hu => ?_) fun _ hx => hx
  refine hu.mono (fun hn hm => ?_) fun ⟨q, hq⟩ => .inl ⟨q, (hnode q).symm.trans hq⟩
  rcases List.mem_cons.1 hm with rfl | hm
  · exact hheap hx
  · exact hn hm

theorem Backs.map {pa : Nat} {ok : Bool} (h : Backs im t e F) (hal : va % 4096 = 0) (hva : ¬ SamePage va directVadd)
    (hout : OutsideHeap va) (hnone : lookup t.page.mem im.tab4 va = none) (hpa : IsPage pa)
    (hrun : onPage (Page.mmPageMap im va pa) t = .ok ok t') : ∃ F', Backs im t' e F' := by
  obtain ⟨p, hp, rfl⟩ := Exec.zoom_eq_ok.1 hrun
  obtain ⟨F', N, h', rfl, hfail, hok⟩ := Page.mmPageMap_ok h.inv hal hva hnone hpa hp
  have hfree : ∀ x, x ∉ N ++ F' → x ∉ F' := fun x hn hx => hn (List.mem_append_right _ hx)
  refine ⟨F', ?_⟩
  cases ok with
  | false =>
    have hg := (hfail rfl).2
    refine h.keep h' (fun x _ _ => hg.lookup x) (fun x _ hu => hu.mono (hfree x) fun ht => ?_) fun _ hx => hx
    exact (hg.isTable.1 ht).imp_right (List.mem_append_left _)
  | true =>
    have hm := hok rfl
    refine h.keep h' (fun x h1 h2 => hm.elsewhere x (hout x h1 h2)) (fun x _ hu => hu.mono (hfree x) fun ht => ?_) fun _ hx => hx
    exact (hm.isTable.1 ht).imp_right (List.mem_append_left _)

theorem Backs.unmap {pa : Nat} {l : Page.Leaf} {free : Bool} (h : Backs im t e F) (h64 : va < 2 ^ 64) (hout : OutsideHeap va)
    (hl : lookup t.page.mem im.tab4 va = some l) (hal : va % l.size = 0)
    (hfree : free = true → ∀ f ∈ l.frames, NotInUse im t.page f ∧ ¬ OfHeap im e t.page f)
    (hrun : onPage (Page.unmap im va l.size free) t = .ok pa t') : ∃ F', Backs im t' e F' := by
  obtain ⟨p, hp, rfl⟩ := Exec.zoom_eq_ok.1 hrun
  obtain ⟨s₁, F₁, hrun₁, h₁, hsame, hF₁⟩ := Page.unmapFree_frames h.inv hl hal h64 fun hf f hm => h.inv.unused (hfree hf f hm).1
  obtain ⟨p', R, hp', h', hun⟩ := Page.unmap_run h.inv hl hal hrun₁ h₁ hsame
  rw [hp] at hp'
  cases hp'
  refine ⟨R ++ F₁, h.keep h' (fun x h1 h2 => hun.elsewhere x fun hs => ?_) (fun x hx hu => ?_) fun _ hx => hx⟩
  · -- an address of the heap would have this leaf
    have hx := h.inv.tree.lookup_of_path hl hs
    by_cases he : x < e
    · obtain ⟨f, -, hf⟩ := h.page x h1 he
      obtain rfl : l = ⟨f, true, false⟩ := Option.some.inj (hx.symm.trans hf)
      exact hout x h1 h2 (Page.samePage_path.2 hs)
    · rw [h.above x (by omega) h2] at hx
      cases hx
  · refine hu.mono (fun hn hm => ?_) fun ht => .inl (hun.isTable.1 ht).1
    rcases List.mem_append.1 hm with hR | hm
    · obtain ⟨q, hq⟩ := hun.tables x hR
      exact hu.notTable q hq
    · rcases hF₁ x hm with hm | ⟨hfr, hm⟩
      · exact hn hm
      · exact (hfree hfr x hm).2 hx

theorem Backs.other (h : Backs im t e F) (hstep : Other im e t t') : ∃ F', Backs im t' e F' := by
  cases hstep with
  | alloc hrun => exact h.alloc hrun
  | free hf hheap htr hrun =>
    obtain ⟨p, hp, rfl⟩ := Exec.zoom_eq_ok.1 hrun
    rw [Page.mmFrameFree_run _ htr] at hp
    cases hp
    exact ⟨_, h.push hf hheap⟩
  | freeWindow hf hheap hrun =>
    obtain ⟨p, hp, rfl⟩ := Exec.zoom_eq_ok.1 hrun
    rw [Page.returnFrame_run h.inv (h.inv.unused hf) (Page.returnFrame_page h.inv hf.1 hp)] at hp
    cases hp
    exact ⟨_, h.push hf hheap⟩
  | map hal hva hout hnone hpa hrun => exact h.map hal hva hout hnone hpa hrun
  | unmap h64 hout hl hal hfree hrun => exact h.unmap h64 hout hl hal hfree hrun
  | write ht hf =>
    obtain ⟨hinv, hnode, hlook⟩ := h.inv.after_write _ ht hf
    refine ⟨F, h.keep hinv (fun va _ _ => hlook va) (fun x _ hu => ?_) fun _ hx => hx⟩
    exact hu.mono id fun ⟨q, hq⟩ => .inl ⟨q, (hnode q).symm.trans hq⟩

/-! ## One page more -/

/-- A frame and its page: the heap is backed one page further. -/
theorem Backs.grow {f : Nat} {t₁ : Pool} (h : Backs im t e F) (he : e + 4096 < 2 ^ 64)
    (halloc : mmFrameAlloc im t = .ok (some f) t₁) (hmap : onPage (Page.mmPageMap im e f) t₁ = .ok true t') :
    ∃ F', Backs im t' (e + pageSize4K) F' := by
  obtain ⟨hlo, -, heal⟩ := h.bound
  obtain ⟨p, hrun₁, rfl⟩ := mmFrameAlloc_ok halloc
  obtain ⟨p', hrun₂, rfl⟩ := Exec.zoom_eq_ok.1 hmap
  obtain ⟨F, rfl, hpage, rfl⟩ := Page.mmFrameAlloc_some h.inv hrun₁
  obtain ⟨hpop, hf⟩ := h.inv.pop
  obtain ⟨F', N, h', rfl, -, hok⟩ :=
    Page.mmPageMap_ok hpop heal (heap_not_window hlo (by omega)) (h.above e le_rfl (by omega)) hpage hrun₂
  have hm := hok rfl
  have hsame : ∀ va, va48Heap ≤ va → va < 2 ^ 64 → va / pageSize4K ≠ e / pageSize4K →
      lookup p'.mem im.tab4 va = lookup t.page.mem im.tab4 va := fun va h1 h2 hne =>
    hm.elsewhere va fun hs => hne (samePage_heap h1 h2 hlo (by omega) hs)
  have hhere : ∀ va, va / pageSize4K = e / pageSize4K → lookup p'.mem im.tab4 va = some ⟨f, true, false⟩ := fun va hs =>
    hm.here va (by unfold SamePage; rw [hs])
  have hunused : ∀ x, Unused im (Page.popFrame t.page) (N ++ F') x → Unused im p' F' x := fun x hu =>
    hu.mono (fun hn hx => hn (List.mem_append_right _ hx)) fun ht => (hm.isTable.1 ht).imp_right (List.mem_append_left _)
  -- an address below the new end lies in the new page or in an old one
  have hcases : ∀ va, va48Heap ≤ va → va < e + pageSize4K →
      va / pageSize4K = e / pageSize4K ∨ va < e ∧ lookup p'.mem im.tab4 va = lookup t.page.mem im.tab4 va := by
    intro va h1 h2
    by_cases hne : va / pageSize4K = e / pageSize4K
    · exact .inl hne
    · unfold pageSize4K at h2
      refine .inr ⟨?_, hsame va h1 (by omega) hne⟩
      unfold pageSize4K at hne
      omega
  -- an old page has another frame
  have hother : ∀ va, va48Heap ≤ va → va < e → lookup t.page.mem im.tab4 va ≠ some ⟨f, true, false⟩ := by
    intro va h1 h2 hva
    obtain ⟨g, hg, hl⟩ := h.page va h1 h2
    rw [hva] at hl
    cases hl
    exact hg.unused.notFree (List.mem_cons_self ..)
  refine ⟨F', h', by unfold pageSize4K; omega, fun va h1 h2 => ?_, fun va va' l h1 h2 h3 h4 hva hva' => ?_, fun va h1 h2 => ?_⟩
  · rcases hcases va h1 h2 with hs | ⟨hlt, hl⟩
    · exact ⟨f, ⟨hunused f hf, hpage.2, List.mem_cons_self ..⟩, hhere va hs⟩
    · obtain ⟨g, hg, hva⟩ := h.page va h1 hlt
      refine ⟨g, ⟨hunused g ?_, hg.low, List.mem_cons_of_mem _ hg.given⟩, hl.trans hva⟩
      exact hg.unused.mono (fun hn hx => hn (List.mem_cons_of_mem _ hx)) .inl
  · rcases hcases va h1 h2 with hs | ⟨hlt, hl⟩ <;> rcases hcases va' h3 h4 with hs' | ⟨hlt', hl'⟩
    · rw [hs, hs']
    · refine absurd ?_ (hother va' h3 hlt')
      rw [← hl', hva', ← hva, hhere va hs]
    · refine absurd ?_ (hother va h1 hlt)
      rw [← hl, hva, ← hva', hhere va' hs']
    · exact h.distinct va va' l h1 hlt h3 hlt' (hl.symm.trans hva) (hl'.symm.trans hva')
  · unfold pageSize4K at h1
    rw [hsame va (by omega) h2 (by unfold pageSize4K; omega)]
    exact h.above va (by omega) h2

/-! ## There is room -/

/-- There are no more than 2^35 low frames, less the one at 0. -/
theorem card_lowFrames {S : Finset Nat} (h : ∀ f ∈ S, Page.LowFrame f) : S.card ≤ 2 ^ 35 - 1 := by
  have hmaps : ∀ f ∈ S, f / 4096 ∈ Finset.Ioo 0 (2 ^ 35) := by
    intro f hf
    obtain ⟨⟨hal, hle⟩, hpos⟩ := h f hf
    unfold va48LowEnd at hle
    unfold pageSize4K at hal
    rw [Finset.mem_Ioo]
    omega
  have hinj : ∀ f ∈ S, ∀ g ∈ S, f / 4096 = g / 4096 → f = g := by
    intro f hf g hg he
    have hf := (h f hf).1.1
    have hg := (h g hg).1.1
    unfold pageSize4K at hf hg
    omega
  calc S.card ≤ (Finset.Ioo 0 (2 ^ 35)).card := Finset.card_le_card_of_injOn _ hmaps hinj
    _ = 2 ^ 35 - 1 := Nat.card_Ioo 0 (2 ^ 35)

/-- The pages of the heap and the tables above them take different frames. -/
theorem Backs.frames_le (h : Backs im t e F) {P J : Nat} (hP : va48Heap + pageSize4K * P ≤ e) (hJ : va48Heap + 2 ^ 21 * J ≤ e) :
    P + J ≤ 2 ^ 35 - 1 := by
  have hva := va48Heap_eq
  obtain ⟨-, h64, -⟩ := h.bound
  -- the frame of page `i`
  have hpage : ∀ i < P, ∃ f, HeapFrame im t F f ∧
      lookup t.page.mem im.tab4 (va48Heap + pageSize4K * i) = some ⟨f, true, false⟩ := by
    intro i hi
    unfold pageSize4K at hP ⊢
    exact h.page _ (by omega) (by omega)
  choose! φ hφ using hpage
  -- the table for the 2M from `va48Heap + 2 ^ 21 * j` on
  have htable : ∀ j < J, ∃ c, node im t.page.mem (Radix.path (Page.key (va48Heap + 2 ^ 21 * j)) 3) = some c := by
    intro j hj
    obtain ⟨f, -, hf⟩ := h.page (va48Heap + 2 ^ 21 * j) (by omega) (by omega)
    exact h.inv.node_of_lookup hf (n := 3) le_rfl
  choose! τ hτ using htable
  have hφinj : Set.InjOn φ (Finset.range P) := by
    intro i hi j hj he
    have hi' := Finset.mem_range.1 hi
    have hj' := Finset.mem_range.1 hj
    have hl := (hφ j hj').2
    rw [← he] at hl
    unfold pageSize4K at hP
    have := h.distinct _ _ _ (by omega) (by unfold pageSize4K; omega) (by omega) (by unfold pageSize4K; omega) (hφ i hi').2 hl
    unfold pageSize4K at this
    omega
  have hτinj : Set.InjOn τ (Finset.range J) := by
    intro i hi j hj he
    have hi' := Finset.mem_range.1 hi
    have hj' := Finset.mem_range.1 hj
    have hpath := h.inv.tree.inj (hτ i hi') (he ▸ hτ j hj')
    have hkey : ∀ d < 3, (Page.key (va48Heap + 2 ^ 21 * i) d : Nat) = Page.key (va48Heap + 2 ^ 21 * j) d := fun d hd =>
      congrArg Fin.val (Radix.path_inj hpath d hd)
    have h0 := hkey 0 (by omega)
    have h1 := hkey 1 (by omega)
    have h2 := hkey 2 (by omega)
    rw [Page.key_val (by omega), Page.key_val (by omega)] at h0 h1 h2
    norm_num at h0 h1 h2
    omega
  have hdisj : Disjoint ((Finset.range P).image φ) ((Finset.range J).image τ) := by
    refine Finset.disjoint_left.2 fun f hf hf' => ?_
    obtain ⟨i, hi, rfl⟩ := Finset.mem_image.1 hf
    obtain ⟨j, hj, he⟩ := Finset.mem_image.1 hf'
    exact (hφ i (Finset.mem_range.1 hi)).1.unused.notTable _ (he ▸ hτ j (Finset.mem_range.1 hj))
  rw [← Finset.card_range P, ← Finset.card_range J, ← Finset.card_image_of_injOn hφinj, ← Finset.card_image_of_injOn hτinj,
    ← Finset.card_union_of_disjoint hdisj]
  refine card_lowFrames fun f hf => ?_
  rcases Finset.mem_union.1 hf with hf | hf
  · obtain ⟨i, hi, rfl⟩ := Finset.mem_image.1 hf
    have hf := (hφ i (Finset.mem_range.1 hi)).1
    exact ⟨⟨hf.unused.frame.1, hf.low⟩, hf.unused.frame.2.1⟩
  · obtain ⟨j, hj, rfl⟩ := Finset.mem_image.1 hf
    exact h.inv.tree.frame (hτ j (Finset.mem_range.1 hj))

/-- A heap of which every page has a frame never comes near the end of the address space: before that it runs out of
frames, since it needs some for the tables, too. -/
theorem Backs.room (h : Backs im t e F) : e + 2 ^ 27 < 2 ^ 64 := by
  by_contra hle
  have hva := va48Heap_eq
  have := h.frames_le (P := 34358652927) (J := 2 ^ 21) (by unfold pageSize4K; omega) (by omega)
  omega

/-! ## The loop of `_expand_heap` -/

/-- One round with enough frames, in the release build. -/
theorem Backs.round (h : Backs im t e F) (he : e + 4096 < 2 ^ 64) (henough : Enough im t.page e (n + 1))
    {r : Option Nat} {t₁ : Pool} {ok : Bool} (halloc : mmFrameAlloc im t = .ok r t₁)
    (hmap : onPage (Page.mmPageMap im e (r.getD 0)) t₁ = .ok ok t') :
    r.isSome = true ∧ ok = true ∧ Enough im t'.page (e + pageSize4K) n := by
  obtain ⟨hlo, -, heal⟩ := h.bound
  obtain ⟨p, hrun₁, rfl⟩ := mmFrameAlloc_ok halloc
  obtain ⟨p', hrun₂, rfl⟩ := Exec.zoom_eq_ok.1 hmap
  obtain ⟨hn, hn1⟩ := henough
  have hn1 := hn1 (by omega)
  have hle := Page.missingTables_le_card im t.page.mem e n
  rw [mmFrameFreeCount, h.inv.count] at hn hn1
  cases r with
  | none =>
    obtain ⟨rfl, -⟩ := Page.mmFrameAlloc_none h.inv hrun₁
    rw [List.length_nil] at hn
    omega
  | some f =>
    obtain ⟨F₁, rfl, hpage, rfl⟩ := Page.mmFrameAlloc_some h.inv hrun₁
    have hpop := h.inv.pop.1
    rw [List.length_cons] at hn hn1
    have hnone : lookup (Page.popFrame t.page).mem im.tab4 e = none := h.above e le_rfl (by omega)
    have hmem : (Page.popFrame t.page).mem = t.page.mem := rfl
    obtain ⟨hok, F', N, h', hm, -, hlen⟩ := Page.mmPageMap_enough hpop heal (heap_not_window hlo (by omega)) hnone hpage hrun₂
      (by rw [hmem]; omega)
    refine ⟨rfl, hok, ?_⟩
    rw [hmem] at hlen
    unfold Enough
    rw [mmFrameFreeCount, show (⟨p', (some f).toList ++ t.given⟩ : Pool).page = p' from rfl, h'.count]
    have hmiss := hm.missing h'
    rw [hmem] at hmiss
    refine ⟨?_, fun hpos => ?_⟩
    · have := hmiss n
      omega
    · have := hmiss (n - 1)
      rw [show n - 1 + 1 = n by omega] at this
      rw [show n + 1 - 1 = n by omega] at hn1
      omega

/-- A round of the loop that returns found a frame and mapped it: in the debug build it checks this, in the release
build there are enough frames. -/
theorem Backs.loop_round {b a n : Nat} (h : Backs im t (b + a) F) (h64 : b + a + (n + 1) * pageSize4K < 2 ^ 64)
    (henough : dbg = false → Enough im t.page (b + a) (n + 1)) (hrun : expandHeapLoop dbg (paging im) b (n + 1) a t = .ok () t') :
    ∃ f t₁ t₂, mmFrameAlloc im t = .ok (some f) t₁ ∧ onPage (Page.mmPageMap im (b + a) f) t₁ = .ok true t₂ ∧
      (dbg = false → Enough im t₂.page (b + (a + pageSize4K)) n) ∧
        expandHeapLoop dbg (paging im) b n (a + pageSize4K) t₂ = .ok () t' := by
  rw [show b + a + (n + 1) * pageSize4K = b + (a + pageSize4K) + n * pageSize4K by rw [Nat.add_mul]; omega] at h64
  have he : b + a + 4096 < 2 ^ 64 := by unfold pageSize4K at h64; omega
  unfold expandHeapLoop at hrun
  obtain ⟨r, t₁, halloc, hrun⟩ := Exec.bind_eq_ok.1 hrun
  rw [u64_of_lt (show b + a < 2 ^ 64 by omega)] at hrun
  cases dbg with
  | true =>
    obtain ⟨_, t₁', hcheck, hafter⟩ := Exec.bind_eq_ok.1 hrun
    obtain ⟨hsome, rfl⟩ := kernelAssertD_ok hcheck
    obtain ⟨f, rfl⟩ := Option.isSome_iff_exists.1 hsome
    obtain ⟨ok, t₂, hmap, hafter⟩ := Exec.bind_eq_ok.1 (kernelAssertD_bind hafter)
    obtain ⟨_, t₂', hcheck, hrest⟩ := Exec.bind_eq_ok.1 hafter
    obtain ⟨hok, rfl⟩ := kernelAssertD_ok hcheck
    exact ⟨f, t₁', t₂', halloc, hok ▸ hmap, (fun h => by cases h), hrest⟩
  | false =>
    obtain ⟨ok, t₂, hmap, hafter⟩ := Exec.bind_eq_ok.1 (kernelAssertD_bind (kernelAssertD_bind hrun))
    obtain ⟨hsome, hok, hnext⟩ := h.round he (henough rfl) halloc hmap
    obtain ⟨f, rfl⟩ := Option.isSome_iff_exists.1 hsome
    rw [Nat.add_assoc] at hnext
    exact ⟨f, t₁, t₂, halloc, hok ▸ hmap, fun _ => hnext, kernelAssertD_bind hafter⟩

theorem expandHeapLoop_backs {b : Nat} : ∀ {n a : Nat} {t : Pool} {F : List Nat},
    Backs im t (b + a) F → b + a + n * pageSize4K < 2 ^ 64 → (dbg = false → Enough im t.page (b + a) n) →
    expandHeapLoop dbg (paging im) b n a t = .ok () t' → ∃ F', Backs im t' (b + a + n * pageSize4K) F'
  | 0, a, t, F, h, _, _, hrun => by
    cases hrun
    exact ⟨F, by rwa [Nat.zero_mul]⟩
  | n + 1, a, t, F, h, h64, henough, hrun => by
    obtain ⟨f, t₁, t₂, halloc, hmap, hnext, hrest⟩ := h.loop_round h64 henough hrun
    rw [show b + a + (n + 1) * pageSize4K = b + (a + pageSize4K) + n * pageSize4K by rw [Nat.add_mul]; omega] at h64 ⊢
    have he : b + a + 4096 < 2 ^ 64 := by unfold pageSize4K at h64; omega
    obtain ⟨F', hstep⟩ := h.grow he halloc hmap
    rw [Nat.add_assoc] at hstep
    exact expandHeapLoop_backs hstep h64 hnext hrest

/-! ## Runs -/

/-- No list has a block for a request of `len` bytes, so that `mm_heap_alloc` calls `_expand_heap`. -/
def MustGrow (len : Nat) (s : HeapState Pool) : Prop := ∀ c, freeClassOf len ≤ c → c < blockMaxClass → s.freeList c = 0

/-- Runs from `mm_heap_bootstrap` on: calls of the heap, writes to the memory it gave out, and calls of others. In the
release build the heap grows only with enough frames on the free list. -/
inductive Runs (im : Image) (dbg : Bool) : HeapState Pool → List (Nat × Nat) → Prop
  | boot {s s' : HeapState Pool} : Page.Reach im s.pg.page →
      (∀ va, va48Heap ≤ va → va < 2 ^ 64 → lookup s.pg.page.mem im.tab4 va = none) → s.pg.given = [] →
      mmHeapBootstrap s = .ok () s' → Runs im dbg s' []
  | alloc {s s' : HeapState Pool} {live : List (Nat × Nat)} {len : Nat} {a : Nat × Nat} : Runs im dbg s live → len < 2 ^ 64 →
      (dbg = false → MustGrow len s → Enough im s.pg.page s.heapEnd (2 ^ 15)) →
      mmHeapAlloc dbg (paging im) len s = .ok a s' → Runs im dbg s' (a :: live)
  | free {s s' : HeapState Pool} {live : List (Nat × Nat)} {a : Nat × Nat} : Runs im dbg s live → a ∈ live →
      mmHeapFree dbg a.1 s = .ok () s' → Runs im dbg s' (live.erase a)
  | write {s : HeapState Pool} {live : List (Nat × Nat)} {x : Nat} {v : UInt8} : Runs im dbg s live → InPayload live x →
      Runs im dbg { s with mem := Bytes.put s.mem x v } live
  | other {s : HeapState Pool} {live : List (Nat × Nat)} {t' : Pool} : Runs im dbg s live → Other im s.heapEnd s.pg t' →
      Runs im dbg { s with pg := t' } live

section Runs

variable {s s' : HeapState Pool} {live : List (Nat × Nat)} {A : Buddy.St} {len : Nat} {a : Nat × Nat}

/-- The heap of `Good` does not look at the layers below. -/
theorem good_pg (h : Heap.Good s live A) (t : Pool) : Heap.Good { s with pg := t } live A :=
  ⟨⟨h.sim.rep, h.sim.heapEnd, h.sim.bound⟩, h.inv, h.coalesced, h.owned, h.nodup⟩

theorem Backs.boot (h : Page.Reach im s.pg.page)
    (hnone : ∀ va, va48Heap ≤ va → va < 2 ^ 64 → lookup s.pg.page.mem im.tab4 va = none)
    (hs : mmHeapBootstrap s = .ok () s') : ∃ F, Backs im s'.pg s'.heapEnd F := by
  have hva := va48Heap_eq
  obtain ⟨F, hinv⟩ := h.inv
  unfold mmHeapBootstrap at hs
  rw [Exec.modify_run] at hs
  cases hs
  refine ⟨F, hinv, ⟨le_rfl, by simp only; omega, by simp only; omega⟩, fun va h1 h2 => ?_, fun va _ _ h1 h2 => ?_, hnone⟩
  · exact absurd h2 (Nat.not_lt.2 h1)
  · exact absurd h2 (Nat.not_lt.2 h1)

/-- The heap after its loop ran. -/
theorem Backs.expanded (h : Backs im s.pg s.heapEnd F) (henough : dbg = false → Enough im s.pg.page s.heapEnd (2 ^ 15))
    (he : Heap.Expanded dbg (paging im) s s') : ∃ F', Backs im s'.pg s'.heapEnd F' := by
  have hroom := h.room
  have hsize : s.heapEnd + 0 + 2 ^ 15 * pageSize4K = s.heapEnd + 2 ^ 27 := by unfold pageSize4K; omega
  obtain ⟨F', h'⟩ := expandHeapLoop_backs (b := s.heapEnd) (a := 0) h (by omega) henough he.loop
  rw [hsize] at h'
  rw [he.heapEnd, u64_of_lt hroom]
  exact ⟨F', h'⟩

theorem Backs.heapAlloc (h : Backs im s.pg s.heapEnd F) (hgood : Heap.Good s live A) (hlen : len < 2 ^ 64)
    (henough : dbg = false → MustGrow len s → Enough im s.pg.page s.heapEnd (2 ^ 15))
    (hrun : mmHeapAlloc dbg (paging im) len s = .ok a s') :
    (∃ A', Heap.Good s' (a :: live) A') ∧ ∃ F', Backs im s'.pg s'.heapEnd F' := by
  obtain ⟨len', hadm, hcls, hrun'⟩ := Heap.admissible_length hrun hlen
  constructor
  · obtain ⟨s₁, hs₁, hgood', -⟩ := hgood.alloc_expands dbg hadm fun hnull => by
      obtain ⟨b, s₁, hexp⟩ := Heap.expandHeap_of_mmHeapAlloc dbg (paging im) hadm.1 hadm.2 hnull hrun'
      exact ⟨h.room, _, (Heap.expandHeap_expanded hexp).loop⟩
    rw [hrun'] at hs₁
    cases hs₁
    exact ⟨_, hgood'⟩
  · rcases Heap.mmHeapAlloc_pages hrun' hadm.1 with ⟨hpg, hend⟩ | ⟨hnull, hexp⟩
    · rw [hpg, hend]
      exact ⟨F, h⟩
    · rw [hcls] at hnull
      exact h.expanded (fun hd => henough hd hnull) hexp

theorem Runs.backs (h : Runs im dbg s live) : ∃ A F, Heap.Good s live A ∧ Backs im s.pg s.heapEnd F := by
  induction h with
  | boot h hnone _ hs =>
    obtain ⟨F, hb⟩ := Backs.boot h hnone hs
    exact ⟨_, F, Heap.good_boot hs, hb⟩
  | alloc _ hlen henough hs ih =>
    obtain ⟨A, F, hgood, hb⟩ := ih
    obtain ⟨⟨A', hgood'⟩, F', hb'⟩ := hb.heapAlloc hgood hlen henough hs
    exact ⟨A', F', hgood', hb'⟩
  | free _ ha hs ih =>
    obtain ⟨A, F, hgood, hb⟩ := ih
    obtain ⟨p, c, hblk, rfl⟩ := hgood.owned.1 ha
    obtain ⟨s₁, A', hs₁, hgood', -, -, hend⟩ := hgood.free dbg hblk
    obtain ⟨s₂, hs₂, -, -, hpg, -⟩ := Heap.mmHeapFree_run dbg hgood.sim hgood.inv hgood.coalesced hblk
    cases hs₁.symm.trans hs
    cases hs₂.symm.trans hs
    exact ⟨A', F, hgood', by rw [hpg, hend]; exact hb⟩
  | write _ hx ih =>
    obtain ⟨A, F, hgood, hb⟩ := ih
    exact ⟨A, F, hgood.write (Bytes.sameOff_put hx), hb⟩
  | other _ hstep ih =>
    obtain ⟨A, F, hgood, hb⟩ := ih
    obtain ⟨F', hb'⟩ := hb.other hstep
    exact ⟨A, F', good_pg hgood _, hb'⟩

/-- In every run every page of the heap is backed by a frame of its own. -/
theorem heap_backed (h : Runs im dbg s live) : Backed im s := by
  obtain ⟨A, F, -, hb⟩ := h.backs
  exact hb.backed

end Runs

/-! ## The release build returns -/

/-- One round of the release build returns whether there is a frame or not. -/
theorem round_returns (h : Inv im t.page F) (hF : ∀ f ∈ F, IsPage f) (hlo : va48Heap ≤ e) (hal : e % 4096 = 0)
    (h64 : e + 4096 < 2 ^ 64) (hnone : ∀ va, e ≤ va → va < 2 ^ 64 → lookup t.page.mem im.tab4 va = none) :
    ∃ r t₁ ok t' F', mmFrameAlloc im t = .ok r t₁ ∧ onPage (Page.mmPageMap im e (r.getD 0)) t₁ = .ok ok t' ∧ Inv im t'.page F' ∧
      (∀ f ∈ F', f ∈ F) ∧ (∀ f ∈ t'.given, f ∈ t.given ∨ f ∈ F) ∧
      (∀ va, va48Heap ≤ va → va < e → lookup t'.page.mem im.tab4 va = lookup t.page.mem im.tab4 va) ∧
      ∀ va, e + pageSize4K ≤ va → va < 2 ^ 64 → lookup t'.page.mem im.tab4 va = none := by
  obtain ⟨r, p, F₁, hrun₁, h₁, hmem, hF₁, hr⟩ : ∃ r p F₁, Page.mmFrameAlloc im t.page = .ok r p ∧ Inv im p F₁ ∧ p.mem = t.page.mem ∧
      (∀ f ∈ F₁, f ∈ F) ∧ ∀ f ∈ r, f ∈ F := by
    cases F with
    | nil => exact ⟨none, _, [], Page.mmFrameAlloc_nil h, h, rfl, fun _ hf => hf, nofun⟩
    | cons f F =>
      refine ⟨some f, _, F, Page.mmFrameAlloc_cons h (hF f (List.mem_cons_self ..)), h.pop.1, rfl,
        fun _ => List.mem_cons_of_mem _, ?_⟩
      rintro _ ⟨⟩
      exact List.mem_cons_self ..
  have hpa : IsPage (r.getD 0) := by
    cases r with
    | none => exact ⟨rfl, Nat.zero_le _⟩
    | some f => exact hF f (hr f rfl)
  have hva := heap_not_window hlo (show e < 2 ^ 64 by omega)
  have he : lookup p.mem im.tab4 e = none := by
    rw [hmem]
    exact hnone e le_rfl (by omega)
  rcases Page.mmPageMap_run h₁ hal hva he hpa with ⟨ok, p', hrun₂, ⟨F', N, h', hN, hfail, hok⟩, -⟩ | ⟨-, x, hx, hhigh⟩
  · have hsame : ∀ va, va48Heap ≤ va → va < 2 ^ 64 → va < e ∨ e + pageSize4K ≤ va →
        lookup p'.mem im.tab4 va = lookup p.mem im.tab4 va := by
      intro va h1 h2 hout
      cases ok with
      | false => exact (hfail rfl).2.lookup va
      | true =>
        refine (hok rfl).elsewhere va fun hs => ?_
        have := samePage_heap h1 h2 hlo (by omega) hs
        unfold pageSize4K at this hout
        omega
    refine ⟨r, ⟨p, r.toList ++ t.given⟩, ok, ⟨p', r.toList ++ t.given⟩, F', ?_, Exec.zoom_eq_ok.2 ⟨p', hrun₂, rfl⟩,
      h', fun f hf => ?_, fun f hf => ?_, fun va h1 h2 => ?_, fun va h1 h2 => ?_⟩
    · unfold mmFrameAlloc onPage
      rw [Exec.bind_ok (Exec.zoom_ok hrun₁)]
      rfl
    · exact hF₁ f (hN ▸ List.mem_append_right _ hf)
    · rcases List.mem_append.1 hf with hf | hf
      · exact .inr (hr f (Option.mem_toList.1 hf))
      · exact .inl hf
    · exact (hsame va h1 (by omega) (.inl h2)).trans (congrArg (lookup · im.tab4 va) hmem)
    · show lookup p'.mem im.tab4 va = none
      have he' : e ≤ va := (Nat.le_add_right _ _).trans h1
      rw [hsame va (hlo.trans he') h2 (.inr h1), hmem]
      exact hnone va he' h2
  · exact absurd (hF x (hF₁ x hx)) hhigh

theorem expandHeapLoop_returns {b : Nat} : ∀ {n a : Nat} {t : Pool} {F : List Nat}, Inv im t.page F → (∀ f ∈ F, IsPage f) →
    va48Heap ≤ b + a → (b + a) % 4096 = 0 → b + a + n * pageSize4K < 2 ^ 64 →
    (∀ va, b + a ≤ va → va < 2 ^ 64 → lookup t.page.mem im.tab4 va = none) →
    ∃ t', expandHeapLoop false (paging im) b n a t = .ok () t' ∧ (∀ f ∈ t'.given, f ∈ t.given ∨ f ∈ F) ∧
      ∀ va, va48Heap ≤ va → va < b + a → lookup t'.page.mem im.tab4 va = lookup t.page.mem im.tab4 va
  | 0, a, t, F, _, _, _, _, _, _ => ⟨t, rfl, fun _ => .inl, fun _ _ _ => rfl⟩
  | n + 1, a, t, F, h, hF, hlo, hal, h64, hnone => by
    rw [show b + a + (n + 1) * pageSize4K = b + (a + pageSize4K) + n * pageSize4K by rw [Nat.add_mul]; omega] at h64
    have he : b + a + 4096 < 2 ^ 64 := by unfold pageSize4K at h64; omega
    obtain ⟨r, t₁, ok, t₂, F', halloc, hmap, h', hF', hgiven, hkept, hnone'⟩ := round_returns h hF hlo hal he hnone
    rw [Nat.add_assoc] at hnone'
    obtain ⟨t', hrun, hrest, hkept'⟩ := expandHeapLoop_returns h' (fun f hf => hF f (hF' f hf)) (by omega)
      (by unfold pageSize4K; omega) h64 hnone'
    refine ⟨t', ?_, fun f hf => ?_, fun va h1 h2 => (hkept' va h1 (by omega)).trans (hkept va h1 h2)⟩
    · unfold expandHeapLoop
      rw [Exec.bind_ok (show (paging im).mmFrameAlloc t = .ok r t₁ from halloc), Exec.bind_ok (kernelAssertD_release _ _ _),
        Exec.bind_ok (kernelAssertD_release _ _ _), u64_of_lt (by omega),
        Exec.bind_ok (show (paging im).mmPageMap (b + a) (r.getD 0) t₁ = .ok ok t₂ from hmap),
        Exec.bind_ok (kernelAssertD_release _ _ _)]
      exact hrun
    · rcases hrest f hf with hf | hf
      · exact hgiven f hf
      · exact .inr (hF' f hf)

/-- The first request of the release build returns a block, however many frames there are. -/
theorem first_request {p : PageState} {len : Nat} (hlen : Heap.Admissible len) (h : Page.Reach im p) (hinv : Inv im p F)
    (hF : ∀ f ∈ F, IsPage f) (hnone : ∀ va, lookup p.mem im.tab4 va = none) :
    ∃ s a s', Runs im false s [] ∧ s.pg = ⟨p, []⟩ ∧ s.heapEnd = va48Heap ∧
      mmHeapAlloc false (paging im) len s = .ok a s' ∧ a.1 ≠ 0 ∧
      s'.heapEnd = va48Heap + 2 ^ 27 ∧ expandHeapLoop false (paging im) va48Heap (2 ^ 15) 0 s.pg = .ok () s'.pg ∧
      (∀ f ∈ s'.pg.given, f ∈ F) ∧
      Bytes.SameOff (Heap.InHeaders fun q => Heap.FreeAt (Buddy.alloc 15 (freeClassOf len) Buddy.empty).2 q ∨
        q = (Buddy.alloc 15 (freeClassOf len) Buddy.empty).1) s.mem s'.mem := by
  have hva := va48Heap_eq
  obtain ⟨s, hs⟩ : ∃ s : HeapState Pool, mmHeapBootstrap ⟨fun _ => 0, fun _ => 0, 0, ⟨p, []⟩⟩ = .ok () s := ⟨_, rfl⟩
  obtain ⟨hpg, hend⟩ : s.pg = ⟨p, []⟩ ∧ s.heapEnd = va48Heap := by
    cases hs
    exact ⟨rfl, rfl⟩
  have hruns : Runs im false s [] := .boot h (fun va _ _ => hnone va) rfl hs
  obtain ⟨t', hloop, hgiven, -⟩ :=
    expandHeapLoop_returns (b := s.heapEnd) (n := 2 ^ 15) (a := 0) (t := s.pg) (by rw [hpg]; exact hinv) hF
    (by omega) (by omega) (by unfold pageSize4K; omega) (fun va _ _ => by rw [hpg]; exact hnone va)
  obtain ⟨s', hrun, hgood, -, hoff, -⟩ := (Heap.good_boot hs).alloc_expands false hlen fun _ => ⟨by omega, t', hloop⟩
  obtain ⟨a, ha⟩ : ∃ a, Heap.payload (Buddy.alloc 15 (freeClassOf len) Buddy.empty).1 (freeClassOf len) = a := ⟨_, rfl⟩
  rw [ha] at hrun hgood
  obtain ⟨hlo, hin⟩ := hgood.inside (List.mem_cons_self ..)
  have hexp : Heap.Expanded false (paging im) s s' := by
    rcases Heap.mmHeapAlloc_pages hrun (by unfold Heap.Admissible at hlen; omega) with ⟨-, hsame⟩ | ⟨-, hexp⟩
    · have hpos := (hgood.payload_spec (List.mem_cons_self ..)).2.2.1
      omega
    · exact hexp
  have hloop' := hexp.loop
  rw [hloop] at hloop'
  injection hloop' with _ ht
  refine ⟨s, a, s', hruns, hpg, hend, hrun, by omega, ?_, ?_, fun f hf => ?_, hoff⟩
  · rw [hexp.heapEnd, hend, u64_of_lt (by omega)]
  · rw [← hend, hloop, ht]
  · rw [← ht] at hf
    rcases hgiven f hf with hf | hf
    · rw [hpg] at hf
      cases hf
    · exact hf

/-- A run of the release build whose first request finds more than 2^17 frames. -/
theorem heap_backed_first : ∃ s a, Runs Page.image₀ false s [a] ∧ s.heapEnd = va48Heap + 2 ^ 27 ∧ Backed Page.image₀ s := by
  obtain ⟨p, F, h, hinv, hlen, hF, -, hnone⟩ := Page.exists_many (2 ^ 17) (by norm_num)
  obtain ⟨s, a, s', hruns, hpg, hend, hrun, -, hend', -⟩ := first_request Heap.admissible_100 h hinv (fun f hf => (hF f hf).1) hnone
  have hpage : s.pg.page = p := congrArg Pool.page hpg
  have henough : Enough Page.image₀ s.pg.page s.heapEnd (2 ^ 15) := by
    rw [hpage]
    have h1 := Page.missingRange_card_le Page.image₀ p.mem s.heapEnd (2 ^ 15)
    have h2 := Page.missingRange_card_le Page.image₀ p.mem s.heapEnd (2 ^ 15 - 1)
    unfold Enough mmFrameFreeCount
    rw [hinv.count, hlen]
    omega
  have hruns' := hruns.alloc (by norm_num) (fun _ _ => henough) hrun
  exact ⟨s', a, hruns', hend', heap_backed hruns'⟩

/-- With four frames left besides its own, the first page gets mapped, and it stays mapped when the frames run out. -/
theorem first_page_mapped {p : PageState} {f : Nat} {t : Pool} (hinv : Inv im p (f :: F)) (hF : ∀ x ∈ f :: F, IsPage x)
    (hlen : 3 < F.length) (hnone : ∀ va, lookup p.mem im.tab4 va = none) {n : Nat} (hn : n ≤ 2 ^ 15)
    (hrun : expandHeapLoop false (paging im) va48Heap (n + 1) 0 ⟨p, []⟩ = .ok () t) :
    lookup t.page.mem im.tab4 va48Heap = some ⟨f, true, false⟩ := by
  have hva := va48Heap_eq
  obtain ⟨hf, hF'⟩ := List.forall_mem_cons.1 hF
  have halloc := Page.mmFrameAlloc_cons hinv hf
  have hwin := heap_not_window le_rfl (show va48Heap < 2 ^ 64 by omega)
  obtain ⟨p', F', N, hmap, h', hsplit, -, hmapped⟩ :=
    Page.mmPageMap_true hinv.pop.1 (show va48Heap % 4096 = 0 by omega) hwin (hnone va48Heap) hf hF' hlen
  have hnone' : ∀ va, va48Heap + 4096 ≤ va → va < 2 ^ 64 → lookup p'.mem im.tab4 va = none := by
    intro va h1 h2
    refine (hmapped.elsewhere va fun hs => ?_).trans (hnone va)
    have := samePage_heap ((Nat.le_add_right _ _).trans h1) h2 le_rfl (by omega) hs
    unfold pageSize4K at this
    omega
  obtain ⟨t', hloop, -, hkept⟩ := expandHeapLoop_returns (b := va48Heap) (n := n) (a := pageSize4K) (t := ⟨p', [f]⟩) h'
    (fun x hx => hF' x (hsplit ▸ List.mem_append_right _ hx)) (Nat.le_add_right _ _) (by decide)
      (by unfold pageSize4K; omega) hnone'
  have hround : expandHeapLoop false (paging im) va48Heap (n + 1) 0 ⟨p, []⟩ = .ok () t' := by
    have hget : (paging im).mmFrameAlloc ⟨p, []⟩ = .ok (some f) ⟨Page.popFrame p, [f]⟩ := by
      show mmFrameAlloc im ⟨p, []⟩ = _
      unfold mmFrameAlloc onPage
      rw [Exec.bind_ok (Exec.zoom_ok halloc)]
      rfl
    have hput : (paging im).mmPageMap va48Heap ((some f).getD 0) ⟨Page.popFrame p, [f]⟩ = .ok true ⟨p', [f]⟩ := by
      show onPage (Page.mmPageMap im va48Heap f) _ = _
      exact Exec.zoom_eq_ok.2 ⟨p', hmap, rfl⟩
    unfold expandHeapLoop
    rw [Exec.bind_ok hget, Exec.bind_ok (kernelAssertD_release _ _ _), Exec.bind_ok (kernelAssertD_release _ _ _), Nat.add_zero,
      u64_of_lt (by omega), Exec.bind_ok hput, Exec.bind_ok (kernelAssertD_release _ _ _)]
    exact hloop
  rw [hround] at hrun
  cases hrun
  exact (hkept va48Heap le_rfl (by unfold pageSize4K; omega)).trans (hmapped.here va48Heap rfl)

/-- With six frames the release build returns a block of 128M of which only a few pages are backed. All that the call writes of the
heap is in the first page, and that one is. -/
theorem heap_not_backed : ∃ s a s', Runs Page.image₀ false s [] ∧ mmFrameFreeCount s.pg.page = 6 ∧
    mmHeapAlloc false (paging Page.image₀) (2 ^ 26) s = .ok a s' ∧ a.1 ≠ 0 ∧
    (∀ x, s'.mem x ≠ s.mem x → va48Heap ≤ x ∧ x < va48Heap + pageSize4K) ∧
    lookup s'.pg.page.mem Page.image₀.tab4 va48Heap = some ⟨0x400000, true, false⟩ ∧ ¬ Backed Page.image₀ s' := by
  have hlen : Heap.Admissible (2 ^ 26) := by unfold Heap.Admissible Heap.sizeofBlock; omega
  obtain ⟨p, -, hstart, hinv, hnone, -⟩ := Page.exists_start
  have hpages : ∀ f ∈ Page.frames₀, IsPage f := fun f hf => (Page.frames₀_spec f hf).1.1
  obtain ⟨s, a, s', hruns, hpg, -, hrun, hpos, hend, hloop, hgiven, hoff⟩ := first_request hlen (.start hstart) hinv hpages hnone
  have hclass : freeClassOf (2 ^ 26) = 15 := by decide +kernel
  refine ⟨s, a, s', hruns, by rw [hpg]; exact hinv.count, hrun, hpos, fun x hx => ?_, ?_, fun hb => ?_⟩
  · -- the block of the request is the only one, at the start of the heap
    rw [hclass] at hoff
    by_contra hout
    refine hx (hoff x ?_)
    rintro ⟨q, ⟨c, hq⟩ | rfl, h1, h2⟩
    · by_cases hzero : q = 0
      · subst hzero
        cases hq
      · have hblk : (Buddy.alloc 15 15 Buddy.empty).2.blk q = none := by
          simp [Buddy.alloc, Buddy.take, Buddy.grow, Buddy.push, Buddy.pop, Buddy.mark, Buddy.empty,
            Buddy.St.setBlk, Buddy.St.setFree, hzero]
        rw [hblk] at hq
        cases hq
    · have haddr : Heap.addr (Buddy.alloc 15 15 Buddy.empty).1 = va48Heap := rfl
      unfold Heap.sizeofBlock at h2
      unfold pageSize4K at hout
      omega
  · rw [hpg] at hloop
    exact first_page_mapped hinv hpages (by decide) hnone (n := 2 ^ 15 - 1) (by omega) hloop
  · -- seven pages would need seven frames
    have hpage : ∀ i < 7, ∃ f ∈ Page.frames₀,
        lookup s'.pg.page.mem Page.image₀.tab4 (va48Heap + 4096 * i) = some ⟨f, true, false⟩ := by
      intro i hi
      obtain ⟨f, hf, hl⟩ := hb.page (va48Heap + 4096 * i) (by omega) (by omega)
      exact ⟨f, hgiven f hf, hl⟩
    choose! φ hφ using hpage
    have hmaps : ∀ i ∈ Finset.range 7, φ i ∈ Page.frames₀.toFinset := fun i hi =>
      List.mem_toFinset.2 (hφ i (Finset.mem_range.1 hi)).1
    obtain ⟨i, hi, j, hj, hne, he⟩ := Finset.exists_ne_map_eq_of_card_lt_of_maps_to (by decide) hmaps
    have hi := Finset.mem_range.1 hi
    have hj := Finset.mem_range.1 hj
    have hl := (hφ j hj).2
    rw [← he] at hl
    have := hb.distinct _ _ _ (by omega) (by omega) (by omega) (by omega) (hφ i hi).2 hl
    have hva := va48Heap_eq
    unfold pageSize4K at this
    omega

end Cing.Backing
