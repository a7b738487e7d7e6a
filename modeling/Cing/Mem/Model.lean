/-
mem_page.c, and what it uses of mem_frame.c: the page tables of the `mem` subsystem. Their frames come
from a static pool that only grows. `mem_page_bootstrap_1` maps physical memory to itself with 2M
pages, below `_tab_4_bootstrap`; `mem_page_bootstrap_2` maps the kernel and the frame buffer with 4K
pages, below `_tab_4`, and `_map_impl` reads the pages to map from a list of ranges. Tables are read
and written where virtual and physical addresses are the same.
-/
import Cing.Mm.Page.Walk

namespace Cing

/-- `_FRAME_CAP_BOOTSTRAP`. -/
def frameCapBootstrap : Nat := 16 * 1024

/-- A place of the kernel image that begins at a page: not the null page, and below `VA_48_LOW_END`. -/
def Placed (a len : Nat) : Prop := a % pageSize4K = 0 ∧ 0 < a ∧ a + len ≤ va48LowEnd + 1

instance (a len : Nat) : Decidable (Placed a len) := inferInstanceAs (Decidable (_ ∧ _))

/-- Where the linker put the static tables of mem_page.c and the frame pool of mem_frame.c. -/
structure MemImage where
  tab4Bootstrap : Nat
  tab4 : Nat
  framePoolBootstrap : Nat
  tab4Bootstrap_placed : Placed tab4Bootstrap pageSize4K
  tab4_placed : Placed tab4 pageSize4K
  pool_placed : Placed framePoolBootstrap (frameCapBootstrap * pageSize4K)
  tab4Bootstrap_apart : ∀ k < frameCapBootstrap, framePoolBootstrap + k * pageSize4K ≠ tab4Bootstrap
  tab4_apart : ∀ k < frameCapBootstrap, framePoolBootstrap + k * pageSize4K ≠ tab4

/-- `section_t`. -/
structure MemSection where
  base : Nat
  len : Nat

/-- What `mem_frame_bootstrap_1` finds out about the machine: `_sections`, `_sec_cnt`, `_kern_start_pa` and
`_kern_end_pa`. -/
structure MemMachine where
  sections : Nat → MemSection
  secCnt : Nat
  kernStartPa : Nat
  kernEndPa : Nat

/-- Physical memory and the static variables that change: `_frame_count_bootstrap`, how much of
`_pa_list_bootstrap_pool` is used, `boot_stage`, and the buffer of the VESA driver. -/
structure MemState where
  mem : Words
  frameCountBootstrap : Nat
  paListBootstrapNext : Nat
  bootStage : Nat
  fb : Nat
  fbLen : Nat

abbrev MemM := EStateM Stop MemState

namespace Mem

open Page (tabEntryLen tabEntryCount tabEntryIsPresent tabEntryGetPadd tabIndex pageSize1G)

/-! ## mem_private.h -/

def va48StackTop : Nat := va48HighStart + pageSize4K
def va48StackBottom : Nat := va48StackTop + 253 * pageSize4K
def va48StackBottomGuard : Nat := va48StackBottom + pageSize4K
def va48FrameBuffer : Nat := va48StackBottomGuard + pageSize4K
def va48FrameBufferEnd : Nat := va48HighStart + 4096 * pageSize4K

def memBootstrapStage0 : Nat := 0
def memBootstrapStageFinish : Nat := 99

/-- `mem_align_check`. -/
def memAlignCheck (p align : Nat) : Bool := p % align = 0

/-! ## mem_frame.c -/

/-- `_PA_LIST_CAP_BOOTSTRAP`. -/
def paListCapBootstrap : Nat := 1024

section Frames

variable (dbg : Bool) (im : MemImage) (mach : MemMachine)

/-- `mem_frame_alloc`: the frame, or none when it returns false. -/
def memFrameAlloc : MemM (Option Nat) := do
  let s ← get
  kernelAssert (s.bootStage < memBootstrapStageFinish) "boot_stage < MEM_BOOTSTRAP_STAGE_FINISH"
  if s.frameCountBootstrap < frameCapBootstrap then do
    modify fun s => { s with frameCountBootstrap := s.frameCountBootstrap + 1 }
    return some (im.framePoolBootstrap + s.frameCountBootstrap * pageSize4K)
  else
    return none

/-- `mem_pa_start`. -/
def memPaStart : MemM Nat := do
  kernelAssertD dbg (mach.secCnt > 0) "_sec_cnt > 0"
  return (mach.sections 0).base

/-- `mem_pa_end`. -/
def memPaEnd : MemM Nat := do
  kernelAssertD dbg (mach.secCnt > 0) "_sec_cnt > 0"
  return u64 ((mach.sections (u64Sub mach.secCnt 1)).base + (mach.sections (u64Sub mach.secCnt 1)).len)

end Frames

/-- `pa_list_t`, with the words its two pointers lead to. -/
structure PaList where
  n : Nat
  pa : Nat → Nat
  nPg : Nat → Nat

section PaLists

variable (dbg : Bool) (list : PaList)

/-- `pa_list_new_bootstrap`, for counts whose pointers do not pass 2^64 (PaPool.lean has the pointers). The pool is handed out once,
so the words behind the pointers are still zero. -/
def paListNewBootstrap (nRange : Nat) : MemM PaList := do
  let s ← get
  kernelAssert (s.bootStage < memBootstrapStageFinish) "boot_stage < MEM_BOOTSTRAP_STAGE_FINISH"
  kernelAssert (s.paListBootstrapNext < paListCapBootstrap) "_pa_list_bootstrap_next < end"
  modify fun s => { s with paListBootstrapNext := s.paListBootstrapNext + 24 }
  let s ← get
  kernelAssert (s.paListBootstrapNext ≤ paListCapBootstrap) "_pa_list_bootstrap_next <= end"
  modify fun s => { s with paListBootstrapNext := s.paListBootstrapNext + 8 * nRange }
  let s ← get
  kernelAssert (s.paListBootstrapNext ≤ paListCapBootstrap) "_pa_list_bootstrap_next <= end"
  modify fun s => { s with paListBootstrapNext := s.paListBootstrapNext + 8 * nRange }
  let s ← get
  kernelAssert (s.paListBootstrapNext ≤ paListCapBootstrap) "_pa_list_bootstrap_next <= end"
  return ⟨nRange, fun _ => 0, fun _ => 0⟩

/-- `pa_list_set_range`. -/
def paListSetRange (range pa nPg : Nat) : MemM PaList := do
  kernelAssertD dbg (range < list.n) "range < list->n"
  kernelAssertD dbg (memAlignCheck pa pageSize4K) "mem_align_check(pa, PAGE_SIZE_4K)"
  return { list with pa := Function.update list.pa range pa, nPg := Function.update list.nPg range nPg }

/-- The first `i` rounds of the loop of `pa_list_n_page`. -/
def paListNPageLoop : Nat → Nat
  | 0 => 0
  | i + 1 => u64 (paListNPageLoop i + list.nPg i)

/-- `pa_list_n_page`. -/
def paListNPage : Nat := paListNPageLoop list list.n

/-- `pa_list_n_range`. -/
def paListNRange : MemM Nat := do
  kernelAssertD dbg (list.n > 0) "list->n > 0"
  return list.n

/-- `pa_list_range_n_page`. -/
def paListRangeNPage (rangeIdx : Nat) : MemM Nat := do
  kernelAssertD dbg (rangeIdx < list.n) "range_idx < list->n"
  return list.nPg rangeIdx

/-- `pa_list_range_pa`. -/
def paListRangePa (rangeIdx : Nat) : MemM Nat := do
  kernelAssertD dbg (rangeIdx < list.n) "range_idx < list->n"
  kernelAssertD dbg (memAlignCheck (list.pa rangeIdx) pageSize4K) "mem_align_check(list->pa[range_idx], PAGE_SIZE_4K)"
  return list.pa rangeIdx

end PaLists

/-! ## Entries and tables -/

section Code

variable (dbg : Bool) (im : MemImage) (mach : MemMachine)

/-- Writes a word of a table. -/
def poke (a v : Nat) : MemM Unit := modify fun s => { s with mem := Function.update s.mem a v }

/-- `_tab_zero`. -/
def tabZero (t : Nat) : MemM Unit :=
  modify fun s => { s with mem := fun x => if t ≤ x ∧ x < t + tabEntryLen * tabEntryCount then 0 else s.mem x }

/-- `_tab_entry_idx`. -/
def tabEntryIdx (va level : Nat) : MemM (Fin 512) := do
  kernelAssert (level ≥ 1 ∧ level ≤ 4) "level >= _TAB_LEV_LOWEST && level <= _TAB_LEV_HIGHEST"
  return tabIndex va level

/-- The page sizes `_tab_entry_init` accepts at a level. -/
def tabEntryCheck (level paddSize : Nat) : MemM Unit :=
  if level = 4 ∨ level = 1 then
    kernelAssert (paddSize = pageSize4K) "padd_size == PAGE_SIZE_4K"
  else if level = 2 then
    kernelAssert (paddSize = pageSize4K ∨ paddSize = pageSize2M) "padd_size == PAGE_SIZE_4K || padd_size == PAGE_SIZE_2M"
  else if level = 3 then
    kernelAssert (paddSize = pageSize4K ∨ paddSize = pageSize1G) "padd_size == PAGE_SIZE_4K || padd_size == PAGE_SIZE_1G"
  else
    throw (.panic "Invalid page table level")

/-- `_tab_entry_init`: the entry it writes. -/
def tabEntryInit (level : Nat) (present write : Bool) (padd paddSize : Nat) : MemM Nat := do
  tabEntryCheck level paddSize
  kernelAssert (memAlignCheck padd paddSize) "mem_align_check(padd, padd_size)"
  kernelAssert (padd ≤ va48LowEnd ∨ padd ≥ va48HighStart) "padd <= VA_48_LOW_END || padd >= VA_48_HIGH_START"
  return padd ||| (if present then 1 else 0) ||| (if write then 2 else 0) |||
    (if paddSize = pageSize2M ∨ paddSize = pageSize1G then 128 else 0)

/-! ## mem_page_bootstrap_1 -/

/-- The entry of a level in a round of `_map_bootstrap`: its table, created if there is none. -/
def bootstrapTable (level entryPa : Nat) (ok : Bool) : MemM (Bool × Option Nat) := do
  let s ← get
  if tabEntryIsPresent (s.mem entryPa) then
    return (ok, some (tabEntryGetPadd (s.mem entryPa)))
  else do
    kernelAssert (s.mem entryPa = 0) "_tab_entry_is_zero(entry)"
    match ← memFrameAlloc im with
    | none => return (false, none)
    | some frame =>
      kernelAssert (frame ≠ 0) "frame != NULL"
      let e ← tabEntryInit level true true frame pageSize4K
      poke entryPa e
      tabZero frame
      let s ← get
      return (true, some (tabEntryGetPadd (s.mem entryPa)))

/-- The loop of `_map_bootstrap` from a level down to level 3: `ok`, and `tab` unless it left the loop early. -/
def mapBootstrapLoop (va : Nat) : Nat → Bool → Nat → MemM (Bool × Option Nat)
  | lv + 3, ok, tab => do
    let idx ← tabEntryIdx va (lv + 3)
    let r ← bootstrapTable im (lv + 3) (tab + tabEntryLen * idx) ok
    match r.2 with
    | none => return (r.1, none)
    | some tab => mapBootstrapLoop va (lv + 2) r.1 tab
  | _, ok, tab => return (ok, some tab)

/-- The leaf that `_map_bootstrap` writes. -/
def bootstrapLeaf (va pa tab : Nat) : MemM Unit := do
  let idx ← tabEntryIdx va 2
  let s ← get
  kernelAssert (s.mem (tab + tabEntryLen * idx) = 0) "_tab_entry_is_zero(entry)"
  let e ← tabEntryInit 2 true true pa pageSize2M
  poke (tab + tabEntryLen * idx) e

/-- `_map_bootstrap`. -/
def mapBootstrap (root va pa : Nat) : MemM Bool := do
  kernelAssert (memAlignCheck va pageSize2M) "mem_align_check((uptr_t)va, PAGE_SIZE_2M)"
  kernelAssert (memAlignCheck pa pageSize2M) "mem_align_check((uptr_t)pa, PAGE_SIZE_2M)"
  let r ← mapBootstrapLoop im va 4 true root
  match r.1, r.2 with
  | true, some tab => do
    bootstrapLeaf va pa tab
    return true
  | ok, _ => return ok

/-- `pa_max` of `mem_page_bootstrap_1`. -/
def paMax : Nat := 1024 * 1024 * 1024 * 1024

/-- The loop of `mem_page_bootstrap_1`, at most `n` rounds. -/
def bootstrap1Loop : Nat → Nat → MemM Unit
  | 0, _ => throw .hang
  | n + 1, va =>
    if u64 (va + pageSize2M) < paMax then do
      let ok ← mapBootstrap im im.tab4Bootstrap va va
      kernelAssert ok "ok"
      bootstrap1Loop n (u64 (va + pageSize2M))
    else
      return ()

/-- `_tab_load_root`. The register the root goes to is not modelled. -/
def tabLoadRoot (p4 : Nat) : MemM Unit :=
  kernelAssert (memAlignCheck p4 pageSize4K) "mem_align_check((uptr_t)p4, PAGE_SIZE_4K)"

/-- `mem_page_bootstrap_1`. -/
def memPageBootstrap1 (n : Nat) : MemM Unit := do
  let s ← get
  kernelAssert (s.bootStage = memBootstrapStage0) "boot_stage == MEM_BOOTSTRAP_STAGE_0"
  let phy0 ← memPaStart dbg mach
  let phyZ ← memPaEnd dbg mach
  kernelAssert (phy0 < mach.kernStartPa) "phy_0 < ker_0"
  kernelAssert (mach.kernStartPa < mach.kernEndPa) "ker_0 < ker_z"
  kernelAssert (mach.kernEndPa < phyZ) "ker_z < phy_z"
  tabZero im.tab4Bootstrap
  bootstrap1Loop im n 0
  tabLoadRoot im.tab4Bootstrap

/-! ## _map_impl -/

/-- The entry of a level in a round of `_map_page`: its table, created if there is none. -/
def pageTable (level entryPa : Nat) : MemM Nat := do
  let s ← get
  if tabEntryIsPresent (s.mem entryPa) then
    return tabEntryGetPadd (s.mem entryPa)
  else do
    kernelAssert (s.mem entryPa = 0) "_tab_entry_is_zero(entry)"
    match ← memFrameAlloc im with
    | none => throw (.assertFail "ok")
    | some frame =>
      kernelAssert (frame ≠ 0) "frame != NULL"
      let e ← tabEntryInit level true true frame pageSize4K
      poke entryPa e
      tabZero frame
      let s ← get
      return tabEntryGetPadd (s.mem entryPa)

/-- The loop of `_map_page` from a level down to level 2: `tab` at its end. -/
def mapPageLoop (va : Nat) : Nat → Nat → MemM Nat
  | lv + 2, tab => do
    let idx ← tabEntryIdx va (lv + 2)
    let tab ← pageTable im (lv + 2) (tab + tabEntryLen * idx)
    mapPageLoop va (lv + 1) tab
  | _, tab => return tab

/-- `_map_page`. -/
def mapPage (root va pa : Nat) : MemM Unit := do
  kernelAssert (memAlignCheck va pageSize4K) "mem_align_check(va, PAGE_SIZE_4K)"
  kernelAssert (memAlignCheck pa pageSize4K) "mem_align_check(pa, PAGE_SIZE_4K)"
  let tab ← mapPageLoop im va 4 root
  let idx ← tabEntryIdx va 1
  let s ← get
  kernelAssert (s.mem (tab + tabEntryLen * idx) = 0) "_tab_entry_is_zero(entry)"
  let e ← tabEntryInit 1 true true pa pageSize4K
  poke (tab + tabEntryLen * idx) e

/-- The loop of `_map_impl`, at most `k` rounds, with its cursors: the page of the addresses to map, the range,
and the page of the range. -/
def mapImplLoop (root va nPg : Nat) (pa : PaList) : Nat → Nat → Nat → Nat → MemM Unit
  | 0, _, _, _ => throw .hang
  | k + 1, i, paIdx, paPage =>
    if i < nPg then do
      let nRange ← paListNRange dbg pa
      kernelAssertD dbg (paIdx < nRange) "pa_idx < pa_list_n_range(pa)"
      let n ← paListRangeNPage dbg pa paIdx
      if paPage < n then do
        let rangePa ← paListRangePa dbg pa paIdx
        mapPage im root (u64 (va + i * pageSize4K)) (u64 (rangePa + paPage * pageSize4K))
        mapImplLoop root va nPg pa k (i + 1) paIdx (paPage + 1)
      else
        mapImplLoop root va nPg pa k i (paIdx + 1) 0
    else
      return ()

/-- `_map_impl`, with at most `k` rounds of its loop. -/
def mapImpl (k root va nPg : Nat) (pa : PaList) : MemM Unit := do
  kernelAssert (memAlignCheck va pageSize4K) "mem_align_check(va, PAGE_SIZE_4K)"
  kernelAssertD dbg (nPg = paListNPage pa) "n_pg == pa_list_n_page(pa)"
  mapImplLoop dbg im root va nPg pa k 0 0 0

/-- `mem_page_map`. -/
def memPageMap (k va nPg : Nat) (pa : PaList) : MemM Unit := do
  let s ← get
  kernelAssertD dbg (s.bootStage > memBootstrapStage0) "boot_stage > MEM_BOOTSTRAP_STAGE_0"
  mapImpl dbg im k im.tab4 va nPg pa

/-! ## mem_page_bootstrap_2 -/

/-- `mem_page_bootstrap_2`, with at most `k` rounds of each loop. -/
def memPageBootstrap2 (k : Nat) : MemM Unit := do
  tabZero im.tab4
  let ker0Va := 0
  kernelAssert (memAlignCheck ker0Va pageSize4K) "mem_align_check(ker_0_va, PAGE_SIZE_4K)"
  let kerZVa := mach.kernEndPa
  -- the second assertion is about the start again
  kernelAssert (memAlignCheck ker0Va pageSize4K) "mem_align_check(ker_0_va, PAGE_SIZE_4K)"
  let kerNPage := u64Sub kerZVa ker0Va / pageSize4K
  let pa ← paListNewBootstrap 1
  let pa ← paListSetRange dbg pa 0 ker0Va kerNPage
  mapImpl dbg im k im.tab4 ker0Va kerNPage pa
  let s ← get
  kernelAssert (memAlignCheck s.fb pageSize4K) "mem_align_check(fb, PAGE_SIZE_4K)"
  kernelAssert (s.fbLen % pageSize4K = 0) "(fb_len % PAGE_SIZE_4K) == 0"
  kernelAssert (s.fbLen < va48FrameBufferEnd - va48FrameBuffer) "fb_len < (VA_48_FRAME_BUFFER_END - VA_48_FRAME_BUFFER)"
  let pa ← paListSetRange dbg pa 0 s.fb (s.fbLen / pageSize4K)
  modify fun s => { s with fb := va48FrameBuffer }
  mapImpl dbg im k im.tab4 va48FrameBuffer (s.fbLen / pageSize4K) pa
  tabLoadRoot im.tab4

end Code

end Mem

end Cing
