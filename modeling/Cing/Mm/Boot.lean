/-
mm.c: `mm_bootstrap` starts the layers on top of each other. From then on an arena cuts regions out of its areas, an area
is a block of the heap, the heap grows by pages, and a page has a frame from the list. In the debug build, where the heap
checks that it got its pages, this comes out as it should for physical memory: every byte of every region has a byte of
memory of its own, and if that is usable memory, then nothing outside the heap leads to it. The frames of the early stage lie
in the kernel image, which stays mapped to itself.
-/
import Cing.Mm.Allocator.Pages
import Cing.Mm.Allocator.Runs
import Cing.Mm.Page.Layout
import Cing.Mm.Paged

namespace Cing.Backing

open Allocator (Users Region InRegion onHeap mmAllocatorBootstrap)
open Heap (expandHeapLoop)
open Page (BootStack Layout Laid Booted UsableFrame KernelPlaced MachineOk DevicesPlaced StackPlaced Apart OnFreeList NotInUse
  SamePage lookup translate page2M firstPage poolFrame fbPages pciePa va48FrameBuffer va48StackTop earlyFrameCap)

/-! ## The code -/

section Code

variable (im : Image) (mach : Machine)

/-- Calls into mm_frame.c and mm_page.c. -/
def onPages {α : Type} (x : PageM α) : AllM Pool α := onHeap (Exec.zoom HeapState.pg (fun p s => { s with pg := p }) (onPage x))

/-- `mm_bootstrap`. The frame buffer that the driver gets is left out. -/
def mmBootstrap (n earlyMapEnd bootStackBottom bootStackTop stackPosition : Nat) : AllM Pool Unit := do
  onPages Page.mmFrameBootstrap
  let _ ← onPages (Page.mmPageBootstrap im mach n earlyMapEnd bootStackTop bootStackBottom stackPosition)
  onHeap Heap.mmHeapBootstrap
  mmAllocatorBootstrap

end Code

variable {im : Image} {mach : Machine} {st : BootStack} {p₀ : PageState} {t t' : Pool} {e f va : Nat}
    {s s' : AllState Pool} {u : Users}

theorem onPages_eq_ok {α : Type} {x : PageM α} {a : α} : onPages x s = .ok a s' ↔
    ∃ p, x s.heap.pg.page = .ok a p ∧ s' = { s with heap := { s.heap with pg := { s.heap.pg with page := p } } } := by
  unfold onPages onHeap onPage
  rw [Exec.zoom_eq_ok]
  simp only [Exec.zoom_eq_ok]
  constructor
  · rintro ⟨h, ⟨q, ⟨p, hp, rfl⟩, rfl⟩, rfl⟩
    exact ⟨p, hp, rfl⟩
  · rintro ⟨p, hp, rfl⟩
    exact ⟨_, ⟨_, ⟨p, hp, rfl⟩, rfl⟩, rfl⟩

/-- What `mm_bootstrap` does on each layer. -/
theorem mmBootstrap_ok {n top bottom position : Nat} (h : mmBootstrap im mach n e bottom top position s = .ok () s') : ∃ buf,
    (do Page.mmFrameBootstrap; Page.mmPageBootstrap im mach n e top bottom position : PageM Nat) s.heap.pg.page =
      .ok buf s'.heap.pg.page ∧ s'.heap.pg.given = s.heap.pg.given ∧ s'.heap.heapEnd = va48Heap ∧
    ∃ s₁, (onHeap Heap.mmHeapBootstrap >>= fun _ => mmAllocatorBootstrap) s₁ = .ok () s' := by
  unfold mmBootstrap at h
  obtain ⟨_, s₁, h1, h⟩ := Exec.bind_eq_ok.1 h
  obtain ⟨buf, s₂, h2, h3⟩ := Exec.bind_eq_ok.1 h
  obtain ⟨p, hp, rfl⟩ := onPages_eq_ok.1 h1
  obtain ⟨q, hq, rfl⟩ := onPages_eq_ok.1 h2
  have hall := h3
  obtain ⟨_, s₃, h4, h5⟩ := Exec.bind_eq_ok.1 h3
  obtain ⟨hs, h6, rfl⟩ := Exec.zoom_eq_ok.1 h4
  unfold Heap.mmHeapBootstrap at h6
  cases h6
  cases h5
  exact ⟨buf, Exec.bind_eq_ok.2 ⟨_, p, hp, hq⟩, rfl, rfl, _, hall⟩

/-! ## The pages of the heap -/

/-- The heap since the boot left the pages in `p₀`: its frames were on the list then, and nothing else has changed. -/
structure Grown (im : Image) (p₀ : PageState) (t : Pool) (e : Nat) : Prop where
  backs : ∃ F, Backs im t e F
  laid : Laid im p₀ t.page
  outside : ∀ va, OutsideHeap va → lookup t.page.mem im.tab4 va = lookup p₀.mem im.tab4 va
  drawn : ∀ f, OfHeap im e t.page f → OnFreeList p₀ f

theorem Grown.boot {given : List Nat} (h : Page.Reach im p₀)
    (hnone : ∀ va, va48Heap ≤ va → va < 2 ^ 64 → lookup p₀.mem im.tab4 va = none) :
    Grown im p₀ ⟨p₀, given⟩ va48Heap := by
  have hva := va48Heap_eq
  obtain ⟨F, hinv⟩ := h.inv
  refine ⟨⟨F, hinv, ⟨le_rfl, by omega, by omega⟩, fun va h1 h2 => ?_, fun va _ _ h1 h2 => ?_, hnone⟩, .refl h, fun _ _ => rfl, ?_⟩
  · exact absurd h2 (Nat.not_lt.2 h1)
  · exact absurd h2 (Nat.not_lt.2 h1)
  · rintro f ⟨va, l, h1, h2, -⟩
    exact absurd h2 (Nat.not_lt.2 h1)

/-- A round of the loop of `_expand_heap`. -/
theorem Grown.round {t₁ : Pool} (h : Grown im p₀ t e) (he : e + 4096 < 2 ^ 64) (halloc : mmFrameAlloc im t = .ok (some f) t₁)
    (hmap : onPage (Page.mmPageMap im e f) t₁ = .ok true t') : Grown im p₀ t' (e + 4096) := by
  obtain ⟨F, hb⟩ := h.backs
  obtain ⟨hlo, h64, hal⟩ := hb.bound
  obtain ⟨p, hp, rfl⟩ := mmFrameAlloc_ok halloc
  obtain ⟨p', hp', rfl⟩ := Exec.zoom_eq_ok.1 hmap
  obtain ⟨hl₁, hfree, -, hpage, hmem, -⟩ := h.laid.reach.alloc_laid hp
  have hnone : lookup p.mem im.tab4 e = none := by
    rw [hmem]
    exact hb.above e le_rfl h64
  obtain ⟨hl₂, hok, -⟩ := hl₁.reach.map_laid hal (heap_not_window hlo h64) hnone hpage hp'
  obtain ⟨N, hm⟩ := hok rfl
  have hother : ∀ va, ¬ SamePage va e → lookup p'.mem im.tab4 va = lookup t.page.mem im.tab4 va := fun va hne =>
    (hm.elsewhere va hne).trans (congrArg (lookup · im.tab4 va) hmem)
  refine ⟨hb.grow he halloc hmap, h.laid.trans (hl₁.trans hl₂), fun va hva => ?_, ?_⟩
  · exact (hother va fun hs => hva e hlo h64 hs.symm).trans (h.outside va hva)
  · rintro f' ⟨va, l, h1, h2, hl, rfl⟩
    by_cases hs : SamePage va e
    · have hl' := (hm.here va hs).symm.trans hl
      obtain rfl := Option.some.inj hl'
      exact h.laid.free f hfree
    · have hlt : va < e := by
        unfold SamePage pageSize4K at hs
        by_contra hge
        exact hs (by omega)
      exact h.drawn _ ⟨va, l, h1, hlt, (hother va hs).symm.trans hl, rfl⟩

theorem Grown.loop {b : Nat} : ∀ {n a : Nat} {t : Pool}, Grown im p₀ t (b + a) → b + a + n * pageSize4K < 2 ^ 64 →
    expandHeapLoop true (paging im) b n a t = .ok () t' → Grown im p₀ t' (b + a + n * pageSize4K)
  | 0, a, t, h, _, hrun => by
    cases hrun
    rw [Nat.zero_mul]
    exact h
  | n + 1, a, t, h, h64, hrun => by
    obtain ⟨F, hb⟩ := h.backs
    obtain ⟨f, t₁, t₂, halloc, hmap, -, hrest⟩ := hb.loop_round h64 (fun hd : true = false => nomatch hd) hrun
    rw [show b + a + (n + 1) * pageSize4K = b + (a + pageSize4K) + n * pageSize4K by rw [Nat.add_mul]; omega] at h64 ⊢
    have hstep := h.round (by unfold pageSize4K at h64; omega) halloc hmap
    rw [Nat.add_assoc] at hstep
    exact Grown.loop hstep h64 hrest

theorem grows_grown : Allocator.Grows true (paging im) (Grown im p₀) := by
  intro t t' e h hrun
  obtain ⟨F, hb⟩ := h.backs
  have hroom := hb.room
  have hsize : e + 0 + 2 ^ 15 * pageSize4K = e + 2 ^ 27 := by unfold pageSize4K; omega
  have h' := Grown.loop (b := e) (a := 0) h (by omega) hrun
  rw [hsize] at h'
  rw [u64_of_lt hroom]
  exact h'

/-! ## What nothing else leads to -/

/-- Where an address leads after the boot: to itself below the end of the identity map, or into the frame buffer, a config space or
a frame of the stack. -/
theorem layout_translate {frame : Nat → Nat} {pa : Nat} (h : Layout im mach st e frame p₀)
    (htr : translate p₀.mem im.tab4 va = some pa) :
    (page2M va < e ∧ pa = page2M va + va % 2097152 ∧
      (firstPage mach ≤ page2M va → Page.bootstrapPaInsidePcieCfgSpace mach (page2M va) = true)) ∨
    (∃ i < fbPages mach, pa = mach.fb + 4096 * i + va % 4096) ∨
    (∃ m < 65536 * mach.pcieCfg.length, pa = pciePa mach.pcieCfg m + va % 4096) ∨
    ∃ i < 254, NotInUse im p₀ (frame i) ∧ pa = frame i + va % 4096 := by
  have hnone : lookup p₀.mem im.tab4 va ≠ none := by
    intro hl
    unfold Page.translate at htr
    rw [hl] at htr
    cases htr
  -- a 4K page that leads to the page `b`
  have hsmall : ∀ {b : Nat}, lookup p₀.mem im.tab4 va = some ⟨b, true, false⟩ → pa = b + va % 4096 := by
    intro b hl
    unfold Page.translate at htr
    rw [hl] at htr
    exact (Option.some.inj htr).symm
  by_cases hva : page2M va < e
  · have hl := h.low va hva
    split at hl
    · exact absurd hl hnone
    · case isFalse hmapped =>
      refine .inl ⟨hva, ?_, fun hk => ?_⟩
      · unfold Page.translate at htr
        rw [hl] at htr
        exact (Option.some.inj htr).symm
      · cases hb : Page.bootstrapPaInsidePcieCfgSpace mach (page2M va) with
        | true => rfl
        | false => exact absurd ⟨hk, hb⟩ hmapped
  · by_cases hvesa : ∃ i < fbPages mach, SamePage va (va48FrameBuffer + 4096 * i)
    · obtain ⟨i, hi, hs⟩ := hvesa
      exact .inr (.inl ⟨i, hi, hsmall ((Page.lookup_samePage hs).trans (h.frameBuffer i hi))⟩)
    · by_cases hcfgs : ∃ m < 65536 * mach.pcieCfg.length, SamePage va (va48PcieCfgStart + 4096 * m)
      · obtain ⟨m, hlt, hs⟩ := hcfgs
        exact .inr (.inr (.inl ⟨m, hlt, hsmall ((Page.lookup_samePage hs).trans (h.pcie m hlt))⟩))
      · by_cases hstack : ∃ i < 254, SamePage va (va48StackTop + 4096 * i)
        · obtain ⟨i, hi, hs⟩ := hstack
          have hlook := @Page.lookup_samePage p₀.mem im.tab4 _ _ hs
          rw [hlook] at hnone
          have hl : lookup p₀.mem im.tab4 va = some ⟨frame i, true, false⟩ := by
            rw [hlook]
            by_cases hlast : i = 253
            · subst hlast
              exact h.bottom.resolve_right fun hno => hnone hno.1
            · exact h.stack i (by omega)
          exact .inr (.inr (.inr ⟨i, hi, (h.frames i hi hnone).1, hsmall hl⟩))
        · exact absurd (h.rest va (by omega) (fun i hi hs => hvesa ⟨i, hi, hs⟩) (fun m hlt hs => hcfgs ⟨m, hlt, hs⟩)
            fun i hi hs => hstack ⟨i, hi, hs⟩) hnone

/-- The boot leaves no address that leads to a frame of usable memory on the list. -/
theorem not_free_of_layout {frame : Nat → Nat} {pa : Nat} (h : Layout im mach st e frame p₀) (hm : MachineOk mach)
    (hf : OnFreeList p₀ f) (hu : UsableFrame mach f) (hal : f % 4096 = 0) (htr : translate p₀.mem im.tab4 va = some pa) : pa < f ∨
    f + 4096 ≤ pa := by
  have hpages : fbPages mach = (mach.fbLen + 4095) / 4096 := rfl
  have hcfg : Page.dPcieGroupGetCfgLen = 2 ^ 28 := rfl
  have hkern := hu.kernel
  have hfbu := hu.frameBuffer
  have hpcie := hu.pcie
  rw [hcfg] at hpcie
  unfold pageSize4K at hfbu hpcie
  rcases layout_translate h htr with ⟨hva, hpa, hin⟩ | ⟨i, hi, hpa⟩ | ⟨m, hlt, hpa⟩ | ⟨i, hi, huse, hpa⟩
  · have hfirst : firstPage mach % 2097152 = 0 := by unfold firstPage; omega
    have h2m : page2M va % 2097152 = 0 := by unfold page2M; omega
    by_cases hk : firstPage mach ≤ page2M va
    · obtain ⟨g, hg, h1, h2⟩ := hm.toPciePlaced.inside_iff.1 (hin hk)
      have := hm.align g hg
      have := hpcie g hg
      omega
    · omega
  · have hfb : mach.fb % 4096 = 0 := by
      have := hm.fb_align
      unfold pageSize2M at this
      omega
    omega
  · have hg : mach.pcieCfg.getD (m / 65536) 0 ∈ mach.pcieCfg := by
      have hlen : m / 65536 < mach.pcieCfg.length := by omega
      rw [List.getD_eq_getElem?_getD, List.getElem?_eq_getElem hlen, Option.getD_some]
      exact List.getElem_mem _
    have := hpcie _ hg
    unfold pciePa at hpa
    omega
  · have halign := huse.1.align
    have hdiff : frame i ≠ f := fun hf' => huse.2.1 (hf' ▸ hf)
    omega

/-- And none that leads anywhere in the area of the heap. -/
theorem heap_empty_of_layout {frame : Nat → Nat} (h : Layout im mach st e frame p₀) (hm : MachineOk mach)
    (hdev : DevicesPlaced mach) (h1 : va48Heap ≤ va) (h64 : va < 2 ^ 64) : lookup p₀.mem im.tab4 va = none := by
  have hva := va48Heap_eq
  have hfbs : va48FrameBuffer = 18446603336222244864 := rfl
  have hpcs : va48PcieCfgStart = 18446603336237973504 := rfl
  have htop : va48StackTop = 18446603336221200384 := rfl
  have hgap : va48DirectAccessPage - va48FrameBuffer = 4310695936 := rfl
  have hlen := hdev.fbLen
  have hfew := hm.few
  have he := h.bound.2
  have hpages : fbPages mach = (mach.fbLen + 4095) / 4096 := rfl
  rw [hgap] at hlen
  refine h.rest va ?_ (fun i hi hs => ?_) (fun m hlt hs => ?_) fun i hi hs => ?_
  · unfold page2M
    omega
  · rw [hfbs] at hs
    unfold SamePage pageSize4K at hs
    omega
  · rw [hpcs] at hs
    unfold SamePage pageSize4K at hs
    omega
  · rw [htop] at hs
    unfold SamePage pageSize4K at hs
    omega

/-! ## Runs -/

/-- Runs of the debug build from `mm_bootstrap` on, which left the pages in `p₀`, with what the users of the arenas hold. -/
inductive Running (im : Image) (mach : Machine) (st : BootStack) (p₀ : PageState) : AllState Pool → Users → Prop
  | boot {s s' : AllState Pool} {garbage : Nat → Bool} {n n' e : Nat} {p : PageState} : p.isEarlyStage = true →
      p.earlyFrameCount = 0 → Page.mmPageEarlyBootstrap im mach garbage n p = .ok e s.heap.pg.page → Apart im s.heap.pg.page →
      mmBootstrap im mach n' e st.bottom st.top st.position s = .ok () s' → s'.heap.pg.page = p₀ → Running im mach st p₀ s' .start
  | new {s s' : AllState Pool} {u : Users} {o : Nat} : Running im mach st p₀ s u →
      Allocator.mmAllocatorNew true (paging im) s = .ok o s' → Running im mach st p₀ s' (u.new o)
  | allocate {s s' : AllState Pool} {u : Users} {o size align p : Nat} : Running im mach st p₀ s u → o ∈ u.objs →
      Allocator.Request size align → Allocator.mmAllocate true (paging im) o size align s = .ok p s' →
      Running im mach st p₀ s' (u.allocate o ⟨p, size, align⟩ (Allocator.Arose true s s'))
  | free {s s' : AllState Pool} {u : Users} {o : Nat} : Running im mach st p₀ s u → o ∈ u.objs →
      Allocator.mmAllocatorFree true o s = .ok () s' → Running im mach st p₀ s' (u.free o)
  | write {s : AllState Pool} {u : Users} {x : Nat} {v : UInt8} : Running im mach st p₀ s u → InRegion u.objs u.regions x →
      Running im mach st p₀ { s with heap := { s.heap with mem := Bytes.put s.heap.mem x v } } u

theorem Running.booted (h : Running im mach st p₀ s u) : ∃ p, Booted im mach st p p₀ ∧ Apart im p := by
  induction h with
  | boot hstage hcount hearly hap hrun hp =>
    obtain ⟨buf, hpages, -⟩ := mmBootstrap_ok hrun
    rw [hp] at hpages
    exact ⟨_, ⟨_, _, _, _, _, buf, hstage, hcount, hearly, hpages⟩, hap⟩
  | new _ _ ih => exact ih
  | allocate _ _ _ _ ih => exact ih
  | free _ _ _ ih => exact ih
  | write _ _ ih => exact ih

theorem Running.layout (h : Running im mach st p₀ s u) (hk : KernelPlaced im mach) (hm : MachineOk mach) (hdev : DevicesPlaced mach)
    (hst : StackPlaced im mach st) : Page.Reach im p₀ ∧ ∃ e frame, Layout im mach st e frame p₀ := by
  obtain ⟨p, hb, hap⟩ := h.booted
  obtain ⟨hreach, -, hlayout⟩ := hb.layout hk hm hdev hst hap
  exact ⟨hreach, hlayout⟩

/-- There are always addresses for the heap to grow. -/
theorem Grown.roomFor (h : Grown im p₀ s.heap.pg s.heap.heapEnd) (len : Nat) : Heap.RoomFor true (paging im) len s.heap := by
  obtain ⟨F, hb⟩ := h.backs
  exact fun _ => ⟨hb.room, nofun⟩

/-- Every run is one of the arenas, on a heap that has grown since the boot. -/
theorem Running.grown (h : Running im mach st p₀ s u) (hk : KernelPlaced im mach) (hm : MachineOk mach) (hdev : DevicesPlaced mach)
    (hst : StackPlaced im mach st) : Allocator.Reach true (paging im) s u ∧ Grown im p₀ s.heap.pg s.heap.heapEnd := by
  obtain ⟨hreach, e, frame, hlayout⟩ := h.layout hk hm hdev hst
  induction h with
  | @boot s s' _ _ _ _ _ _ _ _ _ hrun hp =>
    obtain ⟨buf, -, -, hend, s₁, hall⟩ := mmBootstrap_ok hrun
    refine ⟨.boot hall, ?_⟩
    have hstart := @Grown.boot im p₀ s'.heap.pg.given hreach fun va h1 h64 => heap_empty_of_layout hlayout hm hdev h1 h64
    rw [hend]
    rwa [← hp] at hstart ⊢
  | new _ hrun ih =>
    obtain ⟨hr, hg⟩ := ih
    exact ⟨.new hr (fun _ => hg.roomFor 1) hrun, Allocator.mmAllocatorNew_maintains grows_grown _ _ _ hg hrun⟩
  | @allocate s s' u o size align p _ ho hreq hrun ih =>
    obtain ⟨hr, hg⟩ := ih
    exact ⟨.allocate hr ho hreq (fun _ => hg.roomFor _) hrun, Allocator.mmAllocate_maintains grows_grown _ _ _ hg hrun⟩
  | free _ ho hrun ih =>
    obtain ⟨hr, hg⟩ := ih
    exact ⟨.free hr ho hrun, Allocator.mmAllocatorFree_maintains _ _ _ hg hrun⟩
  | write _ hx ih =>
    obtain ⟨hr, hg⟩ := ih
    exact ⟨.write hr hx, hg⟩

/-- A byte of the heap is in a frame that was on the list at boot. -/
theorem Grown.byte (h : Grown im p₀ t e) (h1 : va48Heap ≤ va) (h2 : va < e) : ∃ f, OnFreeList p₀ f ∧ f % 4096 = 0 ∧
    lookup t.page.mem im.tab4 va = some ⟨f, true, false⟩ ∧ translate t.page.mem im.tab4 va = some (f + va % 4096) := by
  obtain ⟨F, hb⟩ := h.backs
  obtain ⟨f, hf, hl⟩ := hb.page va h1 h2
  refine ⟨f, h.drawn f ⟨va, _, h1, h2, hl, rfl⟩, hf.unused.frame.align, hl, ?_⟩
  unfold Page.translate
  rw [hl]
  rfl

/-- Two bytes of the heap have not one place in memory. -/
theorem Grown.translate_inj {va' : Nat} (h : Grown im p₀ t e) (h1 : va48Heap ≤ va) (h2 : va < e)
    (h1' : va48Heap ≤ va') (h2' : va' < e)
    (he : translate t.page.mem im.tab4 va = translate t.page.mem im.tab4 va') : va = va' := by
  obtain ⟨F, hb⟩ := h.backs
  obtain ⟨f, -, hal, hl, htr⟩ := h.byte h1 h2
  obtain ⟨f', -, hal', hl', htr'⟩ := h.byte h1' h2'
  rw [htr, htr'] at he
  have he := Option.some.inj he
  obtain rfl : f = f' := by omega
  have hpage := hb.distinct va va' _ h1 h2 h1' h2' hl hl'
  unfold pageSize4K at hpage
  omega

/-- In every run of the debug build from the boot on: the address space outside the heap stays as the boot laid it out; each byte
of each region has a place in memory, in a frame of the early stage, or in usable memory where nothing outside the heap leads
to it; and no two regions share one. -/
theorem regions_own_memory (h : Running im mach st p₀ s u) (hk : KernelPlaced im mach) (hm : MachineOk mach)
    (hdev : DevicesPlaced mach) (hst : StackPlaced im mach st) :
    (∃ e frame, Layout im mach st e frame p₀) ∧
    (∀ va, OutsideHeap va → lookup s.heap.pg.page.mem im.tab4 va = lookup p₀.mem im.tab4 va) ∧
    (∀ x, InRegion u.objs u.regions x → ∃ f, translate s.heap.pg.page.mem im.tab4 x = some (f + x % 4096) ∧
      ((∃ k < earlyFrameCap, f = poolFrame im k) ∨ UsableFrame mach f ∧ ∀ va, OutsideHeap va → ∀ pa,
        translate s.heap.pg.page.mem im.tab4 va = some pa → pa < f ∨ f + 4096 ≤ pa)) ∧
    (u.objs.flatMap u.regions).Pairwise fun r r' => ∀ x y, r.ptr ≤ x → x < r.ptr + r.size → r'.ptr ≤ y → y < r'.ptr + r'.size →
      translate s.heap.pg.page.mem im.tab4 x ≠ translate s.heap.pg.page.mem im.tab4 y := by
  obtain ⟨hreach, e, frame, hlayout⟩ := h.layout hk hm hdev hst
  obtain ⟨hr, hg⟩ := h.grown hk hm hdev hst
  obtain ⟨live, carves, F, areas, A, hinv, -⟩ := hr.inv
  have hin : ∀ o ∈ u.objs, ∀ r ∈ u.regions o, va48Heap ≤ r.ptr ∧ r.ptr + r.size ≤ s.heap.heapEnd := by
    intro o ho r hr
    obtain ⟨a, ha, h1, h2⟩ := hinv.region_in ho hr
    have := hinv.heap.inside (hinv.layout.area_live ho ha)
    omega
  refine ⟨⟨e, frame, hlayout⟩, hg.outside, ?_, ?_⟩
  · rintro x ⟨o, ho, r, hr, h1, h2⟩
    obtain ⟨h3, h4⟩ := hin o ho r hr
    obtain ⟨f, hfree, hal, -, htr⟩ := hg.byte (h3.trans h1) (h2.trans_le h4)
    refine ⟨f, htr, (hlayout.free f hfree).imp_right fun hu => ⟨hu, fun va hva pa hpa => ?_⟩⟩
    refine @not_free_of_layout _ _ _ _ _ _ va _ _ hlayout hm hfree hu hal ?_
    unfold Page.translate at hpa ⊢
    rwa [hg.outside va hva] at hpa
  · refine hinv.regions_apart.imp_of_mem fun {r r'} hr hr' hapart x y h1 h2 h3 h4 he => ?_
    obtain ⟨o, ho, hr⟩ := List.mem_flatMap.1 hr
    obtain ⟨o', ho', hr'⟩ := List.mem_flatMap.1 hr'
    obtain ⟨h5, h6⟩ := hin o ho r hr
    obtain ⟨h7, h8⟩ := hin o' ho' r' hr'
    have hxy := hg.translate_inj (h5.trans h1) (h2.trans_le h6) (h7.trans h3) (h4.trans_le h8) he
    unfold Region.Apart Heap.Apart at hapart
    simp only at hapart
    omega

/-! ## A run -/

/-- The heap can grow to `N` pages. -/
structure Roomy (im : Image) (p₀ : PageState) (N : Nat) (t : Pool) (e : Nat) : Prop where
  grown : Grown im p₀ t e
  enough : ∀ n, e + n * pageSize4K = va48Heap + N * pageSize4K → Page.Enough im t.page e n

section Roomy

variable {N n b : Nat}

theorem Roomy.round {t₁ : Pool} (h : Roomy im p₀ N t e) (he : e + 4096 < 2 ^ 64)
    (halloc : mmFrameAlloc im t = .ok (some f) t₁) (hmap : onPage (Page.mmPageMap im e f) t₁ = .ok true t') :
    Roomy im p₀ N t' (e + pageSize4K) := by
  obtain ⟨F, hb⟩ := h.grown.backs
  refine ⟨h.grown.round he halloc hmap, fun k hk => ?_⟩
  exact (hb.round he (h.enough (k + 1) (by rw [Nat.add_mul]; omega)) halloc hmap).2.2

theorem Roomy.loop : ∀ {n a : Nat} {t : Pool}, Roomy im p₀ N t (b + a) → b + a + n * pageSize4K < 2 ^ 64 →
    expandHeapLoop true (paging im) b n a t = .ok () t' → Roomy im p₀ N t' (b + a + n * pageSize4K)
  | 0, a, t, h, _, hrun => by
    cases hrun
    rw [Nat.zero_mul]
    exact h
  | n + 1, a, t, h, h64, hrun => by
    obtain ⟨F, hb⟩ := h.grown.backs
    obtain ⟨f, t₁, t₂, halloc, hmap, -, hrest⟩ := hb.loop_round h64 (fun hd : true = false => nomatch hd) hrun
    rw [show b + a + (n + 1) * pageSize4K = b + (a + pageSize4K) + n * pageSize4K by rw [Nat.add_mul]; omega] at h64 ⊢
    have hstep := h.round (by unfold pageSize4K at h64; omega) halloc hmap
    rw [Nat.add_assoc] at hstep
    exact Roomy.loop hstep h64 hrest

/-- The pages it asks for are granted. -/
theorem Roomy.mapsAll (hF : ∀ f, OnFreeList p₀ f → Page.IsPage f) : ∀ {n e : Nat} {t : Pool}, Roomy im p₀ N t e →
    e + n * pageSize4K < 2 ^ 64 →
    e + n * pageSize4K ≤ va48Heap + N * pageSize4K → (va48Heap + N * pageSize4K - e) % pageSize4K = 0 →
      Heap.MapsAll (paging im) e n t
  | 0, _, _, _, _, _, _ => trivial
  | n + 1, e, t, h, h64, hN, hal => by
    obtain ⟨F, hb⟩ := h.grown.backs
    obtain ⟨hlo, -, heal⟩ := hb.bound
    rw [show e + (n + 1) * pageSize4K = e + pageSize4K + n * pageSize4K by rw [Nat.add_mul]; omega] at h64 hN
    have he : e + 4096 < 2 ^ 64 := by unfold pageSize4K at h64; omega
    have hpages : ∀ f ∈ F, Page.IsPage f := fun f hf => hF f (h.grown.laid.free f (hb.inv.onFreeList.2 hf))
    obtain ⟨r, t₁, ok, t', -, halloc, hmap, -⟩ := round_returns hb.inv hpages hlo heal he hb.above
    have henough := h.enough ((va48Heap + N * pageSize4K - e) / pageSize4K - 1 + 1) (by unfold pageSize4K at hN hal ⊢; omega)
    obtain ⟨hsome, rfl, -⟩ := hb.round he henough halloc hmap
    obtain ⟨f, rfl⟩ := Option.isSome_iff_exists.1 hsome
    obtain ⟨p, hp, -⟩ := mmFrameAlloc_ok halloc
    obtain ⟨F', rfl, -⟩ := Page.mmFrameAlloc_some hb.inv hp
    have hpos := (hb.inv.frames f (List.mem_cons_self ..)).2.1
    refine ⟨f, t₁, t', halloc, by omega, hmap, ?_⟩
    exact Roomy.mapsAll hF (h.round he halloc hmap) h64 hN (by unfold pageSize4K at hN hal ⊢; omega)

theorem grows_roomy : Allocator.Grows true (paging im) (Roomy im p₀ N) := by
  intro t t' e h hrun
  obtain ⟨F, hb⟩ := h.grown.backs
  have hroom := hb.room
  have hsize : e + 0 + 2 ^ 15 * pageSize4K = e + 2 ^ 27 := by unfold pageSize4K; omega
  have h' := Roomy.loop (b := e) (a := 0) h (by omega) hrun
  rw [hsize] at h'
  rw [u64_of_lt hroom]
  exact h'

/-- The tables of up to 2^16 pages of the heap. -/
theorem missingRange_heap (m : Words) (hn : n ≤ 2 ^ 16) : (Page.missingRange im m va48Heap n).card ≤ 131 := by
  have hva := va48Heap_eq
  have hsub : Page.missingRange im m va48Heap n ⊆ {Radix.path (Page.key va48Heap) 1, Radix.path (Page.key va48Heap) 2} ∪
      (Finset.range 129).image fun j => Radix.path (Page.key (va48Heap + 2 ^ 21 * j)) 3 := by
    intro q hq
    obtain ⟨⟨i, hi, hway⟩, -⟩ := Page.mem_missingRange.1 hq
    obtain ⟨d, h1, h3, rfl⟩ := Page.mem_way.1 hway
    have h2 : Radix.path (Page.key (va48Heap + pageSize4K * i)) 2 = Radix.path (Page.key va48Heap) 2 :=
      Page.path2_iff.2 (by unfold pageSize4K; omega)
    rw [Finset.mem_union, Finset.mem_insert, Finset.mem_singleton, Finset.mem_image]
    rcases (by omega : d = 1 ∨ d = 2 ∨ d = 3) with rfl | rfl | rfl
    · exact .inl (.inl (Radix.path_congr fun e he => Radix.path_inj h2 e (by omega)))
    · exact .inl (.inr h2)
    · refine .inr ⟨(4096 * i + 4096) / 2 ^ 21, Finset.mem_range.2 (by omega), Page.path3_iff.2 ?_⟩
      unfold page2M pageSize4K
      omega
  have hcard := Finset.card_le_card hsub
  have hpair : ({Radix.path (Page.key va48Heap) 1, Radix.path (Page.key va48Heap) 2} : Finset (List (Fin 512))).card ≤ 2 :=
    Finset.card_le_two
  have himage := Finset.card_image_le (s := Finset.range 129) (f := fun j => Radix.path (Page.key (va48Heap + 2 ^ 21 * j)) 3)
  rw [Finset.card_range] at himage
  have hunion := Finset.card_union_le {Radix.path (Page.key va48Heap) 1, Radix.path (Page.key va48Heap) 2}
    ((Finset.range 129).image fun j => Radix.path (Page.key (va48Heap + 2 ^ 21 * j)) 3)
  omega

end Roomy

theorem mmBootstrap_run {n top bottom position buf : Nat} {p : PageState}
    (h : (do Page.mmFrameBootstrap; Page.mmPageBootstrap im mach n e top bottom position : PageM Nat) p = .ok buf p₀) :
    ∃ s', mmBootstrap im mach n e bottom top position ⟨⟨fun _ => 0, fun _ => 0, 0, ⟨p, []⟩⟩, 0⟩ = .ok () s' ∧ s'.heap.pg.page = p₀ ∧
      s'.heap.heapEnd = va48Heap ∧ s'.freeAlls = 0 := by
  obtain ⟨_, p', h1, h2⟩ := Exec.bind_eq_ok.1 h
  have hframe := (onPages_eq_ok (s := ⟨⟨fun _ => 0, fun _ => 0, 0, ⟨p, []⟩⟩, 0⟩)).2 ⟨p', h1, rfl⟩
  have hpage := (onPages_eq_ok (s := ⟨⟨fun _ => 0, fun _ => 0, 0, ⟨p', []⟩⟩, 0⟩)).2 ⟨p₀, h2, rfl⟩
  unfold mmBootstrap
  rw [Exec.bind_ok hframe, Exec.bind_ok hpage]
  exact ⟨_, rfl, rfl, rfl, rfl⟩

theorem regions_own_memory_machine₁ : ∃ p₀ s x pa, ∃ u : Users, Running Page.image₀ Page.machine₁ Page.bootStack₁ p₀ s u ∧
    InRegion u.objs u.regions x ∧ translate s.heap.pg.page.mem Page.image₀.tab4 x = some pa := by
  have hva := va48Heap_eq
  obtain ⟨p, p₀, ⟨garbage, n, n', e, q, buf, hstage, hcount, hearly, hrun⟩, F, hinvF, hF, hlen⟩ := Page.machine₁_booted
  obtain ⟨s, hboot, hp, hend, hnull⟩ := mmBootstrap_run hrun
  have hrunning : Running Page.image₀ Page.machine₁ Page.bootStack₁ p₀ s .start :=
    .boot hstage hcount hearly (Page.image₀_apart p) hboot hp
  obtain ⟨hr, hg⟩ := hrunning.grown Page.image₀_placed₁ Page.machine₁_ok Page.machine₁_devices Page.bootStack₁_placed
  obtain ⟨live, carves, G, areas, A, hinv, -⟩ := hr.inv
  have hpages : ∀ f, OnFreeList p₀ f → Page.IsPage f := fun f hf => hF f (hinvF.onFreeList.1 hf)
  have hroomy : Roomy Page.image₀ p₀ (2 ^ 16) s.heap.pg s.heap.heapEnd := by
    refine ⟨hg, fun k hk => ?_⟩
    rw [hend] at hk ⊢
    have hk16 : k = 2 ^ 16 := by unfold pageSize4K at hk; omega
    have h1 := @missingRange_heap Page.image₀ _ s.heap.pg.page.mem hk16.le
    have h2 := @missingRange_heap Page.image₀ _ s.heap.pg.page.mem ((Nat.sub_le k 1).trans hk16.le)
    unfold Page.Enough Page.mmFrameFreeCount
    rw [hp, hinvF.count]
    rw [hp] at h1 h2
    omega
  -- the allocator, and its first request
  obtain ⟨o, s₁, live₁, carves₁, G₁, A₁, hnew, hinv₁, hend₁⟩ := Allocator.mmAllocatorNew_run hinv fun _ _ => ⟨by omega,
    hroomy.mapsAll hpages (by unfold pageSize4K; omega) (by unfold pageSize4K; omega) (by unfold pageSize4K; omega)⟩
  have hroomy₁ := Allocator.mmAllocatorNew_maintains grows_roomy _ _ _ hroomy hnew
  have hreq : Allocator.Request 1 1 := by unfold Allocator.Request Allocator.sizeofArea Allocator.sizeofPtr Heap.sizeofBlock; omega
  obtain ⟨F₁, hb₁⟩ := hroomy₁.grown.backs
  obtain ⟨hlo₁, -, hal₁⟩ := hb₁.bound
  obtain ⟨x, s₂, a, A₂, hall, -⟩ :=
    Allocator.mmAllocate_first hinv₁ (List.mem_cons_self ..) (Function.update_self ..) hreq fun _ => ⟨by omega,
    hroomy₁.mapsAll hpages (by unfold pageSize4K; omega) (by unfold pageSize4K; omega) (by unfold pageSize4K; omega)⟩
  have hrun₂ := (hrunning.new hnew).allocate (List.mem_cons_self ..) hreq hall
  have hx : InRegion [o] ((Users.start.new o).allocate o ⟨x, 1, 1⟩ (Allocator.Arose true s₁ s₂)).regions x :=
    ⟨o, List.mem_cons_self .., ⟨x, 1, 1⟩, by simp [Users.allocate], le_rfl, Nat.lt_succ_self x⟩
  obtain ⟨-, -, hplace, -⟩ :=
    regions_own_memory hrun₂ Page.image₀_placed₁ Page.machine₁_ok Page.machine₁_devices Page.bootStack₁_placed
  obtain ⟨f, hf, -⟩ := hplace x hx
  exact ⟨p₀, s₂, x, _, _, hrun₂, hx, hf⟩

end Cing.Backing
