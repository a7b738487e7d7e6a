/-
mm_frame.c and mm_page.c: frames and page tables. Free frames are linked through their first words;
a frame or table is reached through one window page, whose entry is set to the frame, used and
cleared again. `mm_page_map` walks down from `_tab_4` and creates the tables that are missing, with a
frame it takes in advance; `_unmap` walks down, then clears entries upwards as long as the table it
leaves is empty. The static tables lie in the kernel image, where virtual and physical addresses are
the same, so the code reads and writes the entry of the window directly.
-/
import Cing.Mm.Page.Walk

namespace Cing

/-- Where the linker put the static variables of mm_page.c and mm_frame.c. -/
structure Image where
  tab4 : Nat
  directTabSpace : Nat
  directTabArray : Nat
  earlyFramePool : Nat
  tab4_align : tab4 % pageSize4K = 0
  space_align : directTabSpace % pageSize4K = 0
  pool_align : earlyFramePool % pageSize4K = 0

/-- Physical memory and the static variables of mm_frame.c. -/
structure PageState where
  mem : Words
  freeHead : Nat
  freeCount : Nat
  earlyFrameCount : Nat
  isEarlyStage : Bool

abbrev PageM := EStateM Stop PageState

namespace Page

/-- `_direct_vadd`. -/
def directVadd : Nat := va48DirectAccessPage

/-- `_direct_tab[i]`: the pointer moves on by `PAGE_SIZE_4K` entries each time. -/
def directTab (im : Image) (i : Nat) : Nat := im.directTabSpace + i * pageSize4K * tabEntryLen

/-- `_direct_tab_entry`. -/
def directTabEntry (im : Image) : Nat := directTab im 0 + tabEntryLen * tabIndex directVadd 1

/-! ## Memory accesses -/

section Code

variable (im : Image)

/-- Writes a word of a static table. -/
def poke (a v : Nat) : PageM Unit := modify fun s => { s with mem := Function.update s.mem a v }

/-- Reads a word at a virtual address. -/
def readVa (va : Nat) : PageM Nat := do
  let s ← get
  match translate s.mem im.tab4 va with
  | some pa => return s.mem pa
  | none => throw (.pageFault va)

/-- Writes a word at a virtual address. -/
def writeVa (va v : Nat) : PageM Unit := do
  let s ← get
  match translate s.mem im.tab4 va with
  | some pa => poke pa v
  | none => throw (.pageFault va)

/-! ## Entries and tables -/

/-- The page sizes `_tab_entry_init` accepts at a level. -/
def tabEntryCheck (level paddSize : Nat) : PageM Unit :=
  if level = 4 ∨ level = 1 then
    kernelAssert (paddSize = pageSize4K) "padd_size == PAGE_SIZE_4K"
  else if level = 2 then
    kernelAssert (paddSize = pageSize4K ∨ paddSize = pageSize2M) "padd_size == PAGE_SIZE_4K || padd_size == PAGE_SIZE_2M"
  else if level = 3 then
    kernelAssert (paddSize = pageSize4K ∨ paddSize = pageSize1G) "padd_size == PAGE_SIZE_4K || padd_size == PAGE_SIZE_1G"
  else
    throw (.panic "Invalid page table level")

/-- `_tab_entry_init`: the entry it writes. -/
def tabEntryInit (level : Nat) (present write : Bool) (padd paddSize : Nat) : PageM Nat := do
  tabEntryCheck level paddSize
  kernelAssert (mmAlignCheck padd paddSize) "mm_align_check(padd, padd_size)"
  kernelAssert (padd ≤ va48LowEnd ∨ padd ≥ va48HighStart) "padd <= VA_48_LOW_END || padd >= VA_48_HIGH_START"
  return padd ||| (if present then 1 else 0) ||| (if write then 2 else 0) |||
    (if paddSize = pageSize2M ∨ paddSize = pageSize1G then 128 else 0)

/-- `_vadd_tab_index`. -/
def vaddTabIndex (va level : Nat) : PageM (Fin 512) := do
  kernelAssert (level ≥ 1 ∧ level ≤ 4) "level >= _TAB_LEVEL_LOWEST && level <= _TAB_LEVEL_HIGHEST"
  return tabIndex va level

/-- `_vadd_page_offset`. -/
def vaddPageOffset (va lv : Nat) : PageM Nat :=
  if lv = 1 then return va &&& 0xfff
  else if lv = 2 then return va &&& 0x1fffff
  else throw (.panic "Invalid page table level")

/-- The first `n` rounds of `_tab_zero`, a word each. -/
def tabZeroLoop (va : Nat) : Nat → PageM Unit
  | 0 => return ()
  | n + 1 => do
    tabZeroLoop va n
    writeVa im (va + tabEntryLen * n) 0

/-- `_tab_zero`. -/
def tabZero (va : Nat) : PageM Unit := tabZeroLoop im va tabEntryCount

/-- The last `n` rounds of `_tab_is_zero`, from entry `i` on. -/
def tabIsZeroLoop (va : Nat) : Nat → Nat → PageM Bool
  | 0, _ => return true
  | n + 1, i => do
    let e ← readVa im (va + tabEntryLen * i)
    if e = 0 then tabIsZeroLoop va n (i + 1) else return false

/-- `_tab_is_zero`. -/
def tabIsZero (va : Nat) : PageM Bool := do
  kernelAssert (mmAlignCheck va pageSize4K) "mm_align_check((uptr_t)entry, PAGE_SIZE_4K)"
  tabIsZeroLoop im va tabEntryCount 0

/-! ## The window -/

/-- `mm_page_direct_access_setup`. -/
def mmPageDirectAccessSetup (padd : Nat) : PageM Nat := do
  kernelAssert (mmAlignCheck padd pageSize4K) "mm_align_check(padd, PAGE_SIZE_4K)"
  let s ← get
  kernelAssert (s.mem (directTabEntry im) = 0) "_tab_entry_is_zero(_direct_tab_entry)"
  let e ← tabEntryInit 1 true true padd pageSize4K
  poke (directTabEntry im) e
  return directVadd

/-- `mm_page_direct_access_reset`. -/
def mmPageDirectAccessReset : PageM Unit := do
  let s ← get
  kernelAssert (tabEntryIsPresent (s.mem (directTabEntry im))) "_tab_entry_is_present(_direct_tab_entry)"
  poke (directTabEntry im) 0

/-- `_direct_access_is_reset`. -/
def directAccessIsReset : PageM Bool := do
  let s ← get
  if tabEntryIsPresent (s.mem (directTabEntry im)) then
    return false
  else do
    kernelAssert (s.mem (directTabEntry im) = 0) "_tab_entry_is_zero(_direct_tab_entry)"
    return true

/-! ## _init_direct_access -/

/-- `_tab_zero` of a static table. -/
def staticTabZero (t : Nat) : PageM Unit :=
  modify fun s => { s with mem := fun x => if t ≤ x ∧ x < t + tabEntryLen * tabEntryCount then 0 else s.mem x }

/-- The first loop of `_init_direct_access`, `n` rounds. -/
def initDirectTab : Nat → PageM Unit
  | 0 => return ()
  | n + 1 => do
    initDirectTab n
    kernelAssert (mmAlignCheck (directTab im n) pageSize4K) "mm_align_check((uptr_t)_direct_tab[i], PAGE_SIZE_4K)"

/-- The second loop of `_init_direct_access`, from a level down to level 2. -/
def initDirectLoop : Nat → Nat → PageM Unit
  | lv + 2, tab => do
    let idx ← vaddTabIndex directVadd (lv + 2)
    let s ← get
    kernelAssert (tabEntryIsPresent (s.mem (tab + tabEntryLen * idx)) = false) "!_tab_entry_is_present(en)"
    kernelAssert (s.mem (tab + tabEntryLen * idx) = 0) "_tab_entry_is_zero(en)"
    let e ← tabEntryInit (lv + 2) true true (directTab im lv) pageSize4K
    poke (tab + tabEntryLen * idx) e
    staticTabZero (directTab im lv)
    initDirectLoop (lv + 1) (directTab im lv)
  | _, _ => return ()

/-- `_init_direct_access`. -/
def initDirectAccess : PageM Unit := do
  kernelAssert (mmAlignCheck im.directTabArray pageSize4K) "mm_align_check((uptr_t)_direct_tab, PAGE_SIZE_4K)"
  initDirectTab im 3
  initDirectLoop im 4 im.tab4
  poke (directTabEntry im) 0

/-! ## mm_frame.c -/

/-- `mm_frame_alloc`: the frame, or none when it returns false. -/
def mmFrameAlloc : PageM (Option Nat) := do
  let s ← get
  kernelAssert (s.isEarlyStage = false) "!_is_early_stage"
  if s.freeHead = 0 then
    return none
  else do
    kernelAssert (mmAlignCheck s.freeHead pageSize4K) "mm_align_check(_free_head, FRAME_SIZE_4K)"
    let freeHeadVa ← mmPageDirectAccessSetup im s.freeHead
    let next ← readVa im freeHeadVa
    modify fun s => { s with freeHead := next, freeCount := s.freeCount - 1 }
    mmPageDirectAccessReset im
    return some s.freeHead

/-- `mm_frame_free`. -/
def mmFrameFree (frameVa framePa : Nat) : PageM Unit := do
  let s ← get
  writeVa im frameVa s.freeHead
  modify fun s => { s with freeHead := framePa, freeCount := s.freeCount + 1 }

/-- `mm_frame_free_count`. -/
def mmFrameFreeCount (s : PageState) : Nat := s.freeCount

/-! ## mm_page_map -/

/-- The start of a round of `mm_page_map`: a zeroed frame in hand, none if there is no frame left. -/
def spareFrame (framePa : Nat) : PageM (Option Nat) :=
  if framePa = 0 then do
    match ← mmFrameAlloc im with
    | none => return none
    | some framePa =>
      let frameVa ← mmPageDirectAccessSetup im framePa
      tabZero im frameVa
      mmPageDirectAccessReset im
      return some framePa
  else
    return some framePa

/-- The entry of a round of `mm_page_map`: the frame in hand becomes the table if there is none. The frame
still in hand is returned. -/
def linkTable (level entryVa framePa : Nat) : PageM Nat := do
  let entry ← readVa im entryVa
  if tabEntryIsPresent entry then
    return framePa
  else do
    kernelAssert (entry = 0) "_tab_entry_is_zero(entry)"
    kernelAssert (framePa ≠ 0) "frame_pa != UPTR_NULL"
    let e ← tabEntryInit level true true framePa pageSize4K
    writeVa im entryVa e
    return 0

/-- The loop of `mm_page_map` from a level down to level 2: `ok`, `tab_pa` and `frame_pa` at its end. -/
def mapLoop (va : Nat) : Nat → Nat → Nat → PageM (Bool × Nat × Nat)
  | lv + 2, tabPa, framePa => do
    match ← spareFrame im framePa with
    | none => return (false, tabPa, framePa)
    | some framePa =>
      let tabVa ← mmPageDirectAccessSetup im tabPa
      let idx ← vaddTabIndex va (lv + 2)
      let framePa ← linkTable im (lv + 2) (tabVa + tabEntryLen * idx) framePa
      let entry ← readVa im (tabVa + tabEntryLen * idx)
      mmPageDirectAccessReset im
      mapLoop va (lv + 1) (tabEntryGetPadd entry) framePa
  | _, tabPa, framePa => return (true, tabPa, framePa)

/-- The leaf entry that `mm_page_map` writes. -/
def mapLeaf (va pa tabPa : Nat) : PageM Unit := do
  let tabVa ← mmPageDirectAccessSetup im tabPa
  let idx ← vaddTabIndex va 1
  let entry ← readVa im (tabVa + tabEntryLen * idx)
  kernelAssert (entry = 0) "_tab_entry_is_zero(entry)"
  let e ← tabEntryInit 1 true true pa pageSize4K
  writeVa im (tabVa + tabEntryLen * idx) e
  mmPageDirectAccessReset im

/-- Gives a frame that is not mapped back to the list. -/
def returnFrame (framePa : Nat) : PageM Unit := do
  let frameVa ← mmPageDirectAccessSetup im framePa
  mmFrameFree im frameVa framePa
  mmPageDirectAccessReset im

/-- `mm_page_map`. -/
def mmPageMap (va pa : Nat) : PageM Bool := do
  kernelAssert (mmAlignCheck va pageSize4K) "mm_align_check(va, PAGE_SIZE_4K)"
  kernelAssert (mmAlignCheck pa pageSize4K) "mm_align_check(pa, PAGE_SIZE_4K)"
  let r ← mapLoop im va 4 im.tab4 0
  let reset ← directAccessIsReset im
  kernelAssert reset "_direct_access_is_reset()"
  (if r.1 then mapLeaf im va pa r.2.1 else pure ())
  (if r.2.2 ≠ 0 then returnFrame im r.2.2 else pure ())
  return r.1

/-! ## _unmap -/

/-- The first loop of `_unmap`, from a level down: the level below the entry it stops at, whether that
entry is of a 2M page, and `tab_pa`. -/
def unmapDown (va : Nat) : Nat → (Nat → Nat) → PageM (Nat × Bool × (Nat → Nat))
  | 0, tabPa => return (0, false, tabPa)
  | lv + 1, tabPa => do
    let idx ← vaddTabIndex va (lv + 1)
    let tabVa ← mmPageDirectAccessSetup im (tabPa (lv + 1))
    let entry ← readVa im (tabVa + tabEntryLen * idx)
    kernelAssert (tabEntryIsPresent entry) "_tab_entry_is_present(entry_va_tmp)"
    (if tabEntryIsHuge entry then kernelAssert (lv + 1 = 2) "lv == TAB_LEVEL_2" else pure ())
    mmPageDirectAccessReset im
    let tabPa := Function.update tabPa lv (tabEntryGetPadd entry)
    if tabEntryIsHuge entry then
      return (lv, true, tabPa)
    else
      unmapDown va lv tabPa

/-- The loop of `_unmap` that frees `n` 4K frames of a 2M page. -/
def freeFramesLoop : Nat → Nat → Nat → PageM Unit
  | 0, _, _ => return ()
  | n + 1, va, pa => do
    mmFrameFree im va pa
    freeFramesLoop n (u64 (va + pageSize4K)) (u64 (pa + pageSize4K))

/-- The last loop of `_unmap`, `n` levels from `lv` up. -/
def unmapUp (va : Nat) (tabPa : Nat → Nat) : Nat → Nat → PageM Unit
  | 0, _ => return ()
  | n + 1, lv => do
    let idx ← vaddTabIndex va lv
    let tabVa ← mmPageDirectAccessSetup im (tabPa lv)
    writeVa im (tabVa + tabEntryLen * idx) 0
    let tabEmpty ← tabIsZero im tabVa
    (if tabEmpty then mmFrameFree im tabVa (tabPa lv) else pure ())
    mmPageDirectAccessReset im
    if tabEmpty then unmapUp va tabPa n (lv + 1) else return ()

/-- The middle of `_unmap`: gives the frames of the page back. -/
def unmapFree (va size lv pa : Nat) (huge freeFrame : Bool) : PageM Unit :=
  if lv = 1 then do
    kernelAssert (size = pageSize4K) "size == PAGE_SIZE_4K"
    kernelAssert (huge = false) "huge == false"
    kernelAssert (mmAlignCheck pa pageSize4K) "mm_align_check(pa, PAGE_SIZE_4K)"
    if freeFrame then mmFrameFree im va pa else return ()
  else if lv = 2 then do
    kernelAssert (size = pageSize2M) "size == PAGE_SIZE_2M"
    kernelAssert (huge = true) "huge == true"
    kernelAssert (mmAlignCheck pa pageSize2M) "mm_align_check(pa, PAGE_SIZE_2M)"
    if freeFrame then freeFramesLoop im (pageSize2M / pageSize4K) va pa else return ()
  else
    throw (.panic "Invalid page table level")

/-- `_unmap`. -/
def unmap (va size : Nat) (freeFrame : Bool) : PageM Nat := do
  kernelAssert (mmAlignCheck va size) "mm_align_check(va, size)"
  let r ← unmapDown im va 4 (Function.update (fun _ => 0) 4 im.tab4)
  let lv := r.1 + 1
  kernelAssert (lv = 1 ∨ lv = 2) "lv == TAB_LEVEL_1 || lv == TAB_LEVEL_2"
  let off ← vaddPageOffset va lv
  let pa := u64 (r.2.2 (lv - 1) + off)
  unmapFree im va size lv pa r.2.1 freeFrame
  unmapUp im va r.2.2 (5 - lv) lv
  return pa

end Code

theorem vaddTabIndex_run {lv : Nat} (h : 1 ≤ lv ∧ lv ≤ 4) (va : Nat) (s : PageState) :
    vaddTabIndex va lv s = .ok (tabIndex va lv) s := by
  unfold vaddTabIndex
  rw [Exec.bind_ok (kernelAssert_pos h _ s)]
  rfl

end Page

end Cing
