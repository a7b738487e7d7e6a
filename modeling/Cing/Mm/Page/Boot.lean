/-
mm_frame.c and mm_page.c at boot: the identity map of the early stage, whose tables come from a static
pool of frames, and the loop of `mm_page_bootstrap` that takes the 2M pages above the kernel out of it
and puts their frames on the free list. In the early stage virtual and physical addresses are the same.
A loop whose end is a 64-bit comparison gets the number of rounds it may take.
-/
import Cing.Mm.Page.Model

namespace Cing

/-- A section of available physical memory. -/
structure PhyMemSection where
  base : Nat
  len : Nat

/-- What the boot loader and the drivers say about the machine: the range of the kernel image, the available
sections, the frame buffer and the config spaces of the PCIe groups. -/
structure Machine where
  kernelStart : Nat
  kernelEnd : Nat
  secs : List PhyMemSection
  fb : Nat
  fbLen : Nat
  pcieCfg : List Nat

namespace Page

/-- `d_pcie_group_get_cfg_len`. -/
def dPcieGroupGetCfgLen : Nat := 256 * 32 * 8 * 4 * 1024

/-- `_EARLY_FRAME_CAP`. -/
def earlyFrameCap : Nat := 16 * 1024

/-! ## mm_frame.c -/

section Frames

variable (im : Image) (mach : Machine)

/-- `mm_pa_start`. -/
def mmPaStart : PageM Nat :=
  match mach.secs with
  | [] => throw (.assertFail "_phy_mem_sec_count > 0")
  | sec :: _ => return sec.base

/-- `mm_pa_end`. -/
def mmPaEnd : PageM Nat :=
  match mach.secs.getLast? with
  | none => throw (.assertFail "_phy_mem_sec_count > 0")
  | some sec => return u64 (sec.base + sec.len)

/-- `mm_pa_range_valid`. -/
def mmPaRangeValid (paStart paEnd : Nat) : Bool :=
  mach.secs.any fun sec => decide (sec.base ≤ paStart ∧ u64 (sec.base + sec.len) > paEnd)

/-- `mm_frame_alloc_early`: the frame, or none when it returns false. -/
def mmFrameAllocEarly : PageM (Option Nat) := do
  let s ← get
  kernelAssert (s.isEarlyStage = true) "_is_early_stage"
  if s.earlyFrameCount < earlyFrameCap then do
    modify fun s => { s with earlyFrameCount := s.earlyFrameCount + 1 }
    return some (im.earlyFramePool + s.earlyFrameCount * pageSize4K)
  else
    return none

/-- `mm_frame_bootstrap`. -/
def mmFrameBootstrap : PageM Unit := do
  let s ← get
  kernelAssert (s.isEarlyStage = true) "_is_early_stage"
  modify fun s => { s with freeHead := 0, freeCount := 0, isEarlyStage := false }

end Frames

/-! ## The identity map -/

section EarlyMap

variable (im : Image) (mach : Machine)

/-- The entry of a level in a round of `_map_early`: its table, created if there is none. -/
def earlyTable (level entryPa : Nat) (ok : Bool) : PageM (Bool × Option Nat) := do
  let s ← get
  if tabEntryIsPresent (s.mem entryPa) then
    return (ok, some (tabEntryGetPadd (s.mem entryPa)))
  else do
    kernelAssert (s.mem entryPa = 0) "_tab_entry_is_zero(entry)"
    match ← mmFrameAllocEarly im with
    | none => return (false, none)
    | some frame =>
      kernelAssert (frame ≠ 0) "frame != NULL"
      let e ← tabEntryInit level true true frame pageSize4K
      poke entryPa e
      staticTabZero frame
      let s ← get
      return (true, some (tabEntryGetPadd (s.mem entryPa)))

/-- The loop of `_map_early` from a level down to level 3: `ok`, and `tab` unless it left the loop early. -/
def mapEarlyLoop (va : Nat) : Nat → Bool → Nat → PageM (Bool × Option Nat)
  | lv + 3, ok, tab => do
    let idx ← vaddTabIndex va (lv + 3)
    let r ← earlyTable im (lv + 3) (tab + tabEntryLen * idx) ok
    match r.2 with
    | none => return (r.1, none)
    | some tab => mapEarlyLoop va (lv + 2) r.1 tab
  | _, ok, tab => return (ok, some tab)

/-- The leaf that `_map_early` writes. -/
def earlyLeaf (va pa tab : Nat) : PageM Unit := do
  let idx ← vaddTabIndex va 2
  let s ← get
  kernelAssert (s.mem (tab + tabEntryLen * idx) = 0) "_tab_entry_is_zero(entry)"
  let e ← tabEntryInit 2 true true pa pageSize2M
  poke (tab + tabEntryLen * idx) e

/-- `_map_early`. The local `ok` is not initialised: `ok` is the value it happens to hold. -/
def mapEarly (ok : Bool) (va pa : Nat) : PageM Bool := do
  kernelAssert (mmAlignCheck va pageSize2M) "mm_align_check((uptr_t)va, PAGE_SIZE_2M)"
  kernelAssert (mmAlignCheck pa pageSize2M) "mm_align_check((uptr_t)pa, PAGE_SIZE_2M)"
  let r ← mapEarlyLoop im va 4 ok im.tab4
  match r.1, r.2 with
  | true, some tab => do
    earlyLeaf va pa tab
    return true
  | ok, _ => return ok

/-- The loop of `mm_page_early_bootstrap`, at most `n` rounds: `va` at its end. -/
def earlyBootstrapLoop (garbage : Nat → Bool) (phyEnd : Nat) : Nat → Nat → PageM Nat
  | 0, _ => throw .hang
  | n + 1, va =>
    if u64 (va + pageSize2M) < phyEnd then do
      let ok ← mapEarly im (garbage va) va va
      if ok then earlyBootstrapLoop garbage phyEnd n (u64 (va + pageSize2M)) else return va
    else
      return va

/-- `mm_page_early_bootstrap`: `_early_map_end` at its end. -/
def mmPageEarlyBootstrap (garbage : Nat → Bool) (n : Nat) : PageM Nat := do
  let phyStart ← mmPaStart mach
  let phyEnd ← mmPaEnd mach
  kernelAssert (phyStart < mach.kernelStart) "phy_start < kernel_start"
  kernelAssert (phyEnd > mach.kernelEnd) "phy_end > kernel_end"
  kernelAssert (mach.kernelStart < mach.kernelEnd) "kernel_start < kernel_end"
  staticTabZero im.tab4
  let earlyMapEnd ← earlyBootstrapLoop im garbage phyEnd n 0
  kernelAssert (mmAlignCheck im.tab4 pageSize4K) "mm_align_check((uptr_t)p4, PAGE_SIZE_4K)"
  return earlyMapEnd

end EarlyMap

/-! ## The pages above the kernel -/

section Unmap

variable (im : Image) (mach : Machine)

/-- `_bootstrap_pa_inside_pcie_cfg_space`. -/
def bootstrapPaInsidePcieCfgSpace (page : Nat) : Bool :=
  mach.pcieCfg.any fun cfgStart => decide (page ≥ cfgStart ∧ page < u64 (cfgStart + dPcieGroupGetCfgLen))

/-- Whether `mm_page_bootstrap` frees the frames of a page it unmaps. -/
def freeFrame (page : Nat) : Bool :=
  mmPaRangeValid mach page (u64 (page + pageSize2M)) &&
    decide (page > u64 (mach.fb + mach.fbLen) ∨ u64 (mach.fb + pageSize2M) < mach.fb)

/-- A round of the loop of `mm_page_bootstrap`. -/
def bootstrapUnmapPage (page : Nat) : PageM Unit :=
  if bootstrapPaInsidePcieCfgSpace mach page then
    return ()
  else do
    let _ ← unmap im page pageSize2M (freeFrame mach page)
    return ()

/-- The loop of `mm_page_bootstrap`, at most `n` rounds: `unmap` at its end. -/
def bootstrapUnmapLoop (phyEnd : Nat) : Nat → Nat → PageM Nat
  | 0, _ => throw .hang
  | n + 1, page =>
    if u64 (page + pageSize2M) < phyEnd then do
      bootstrapUnmapPage im mach page
      bootstrapUnmapLoop phyEnd n (u64 (page + pageSize2M))
    else
      return page

/-- `mm_page_bootstrap` up to the end of its loop: `unmap` at its end. -/
def mmPageBootstrapUnmap (n : Nat) : PageM Nat := do
  let phyEnd ← mmPaEnd mach
  kernelAssert (mach.kernelStart < mach.kernelEnd) "kernel_start < kernel_end"
  initDirectAccess im
  kernelAssert (mach.fb % pageSize2M = 0) "fb % PAGE_SIZE_2M == 0"
  let page ← mmAlignUp (u64 (mach.kernelEnd + 1)) pageSize2M
  bootstrapUnmapLoop im mach phyEnd n page

end Unmap

end Page

end Cing
