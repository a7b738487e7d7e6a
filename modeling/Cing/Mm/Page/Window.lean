/-
The operations of mm_frame.c and mm_page.c with a trace of what they do with the window: each time
`mm_page_direct_access_setup` or `mm_page_direct_access_reset` is reached, and each time a table or
a frame is read or written. An event says what the hardware makes of the window at that moment, next to
the table or frame that the code has in mind. Without the events it is the code of the model.
-/
import Cing.Lib.Trace
import Cing.Mm.Page.Model

namespace Cing.Page

open Trace (quiet note Shows)

/-- What is observed of the window. -/
inductive Event where
  /-- `mm_page_direct_access_setup` is reached, with this entry in the window. -/
  | setup (entry : Nat)
  /-- `mm_page_direct_access_reset` is reached, with this entry in the window. -/
  | reset (entry : Nat)
  /-- A word of a table is read or written at an address, which leads to this physical address. -/
  | table (va : Nat) (pa : Option Nat) (tab : Nat)
  /-- The first word of a frame is read or written at an address, which leads to this physical address. -/
  | frame (va : Nat) (pa : Option Nat) (f : Nat)

/-- The window is set up only if it is clear and reset only if it is set, tables are read and written in the window
while it shows them, and frames where they are mapped. -/
def Event.Ok : Event → Prop
  | .setup entry => entry = 0
  | .reset entry => tabEntryIsPresent entry = true
  | .table va pa tab => SamePage va directVadd ∧ pa = some (tab + va % pageSize4K)
  | .frame _ pa f => pa = some f

abbrev TraceM := EStateM Stop (Traced PageState Event)

/-! ## The code with its events -/

namespace Observed

section Code

variable (im : Image)

def mmPageDirectAccessSetup (padd : Nat) : TraceM Nat := do
  note fun s => .setup (s.mem (directTabEntry im))
  quiet (Page.mmPageDirectAccessSetup im padd)

def mmPageDirectAccessReset : TraceM Unit := do
  note fun s => .reset (s.mem (directTabEntry im))
  quiet (Page.mmPageDirectAccessReset im)

/-- Reads a word of a table. -/
def readTab (tab va : Nat) : TraceM Nat := do
  note fun s => .table va (translate s.mem im.tab4 va) tab
  quiet (readVa im va)

/-- Writes a word of a table. -/
def writeTab (tab va v : Nat) : TraceM Unit := do
  note fun s => .table va (translate s.mem im.tab4 va) tab
  quiet (writeVa im va v)

def tabZeroLoop (tab va : Nat) : Nat → TraceM Unit
  | 0 => return ()
  | n + 1 => do
    tabZeroLoop tab va n
    writeTab im tab (va + tabEntryLen * n) 0

def tabIsZeroLoop (tab va : Nat) : Nat → Nat → TraceM Bool
  | 0, _ => return true
  | n + 1, i => do
    let e ← readTab im tab (va + tabEntryLen * i)
    if e = 0 then tabIsZeroLoop tab va n (i + 1) else return false

def tabIsZero (tab va : Nat) : TraceM Bool := do
  quiet (kernelAssert (mmAlignCheck va pageSize4K) "mm_align_check((uptr_t)entry, PAGE_SIZE_4K)")
  tabIsZeroLoop im tab va tabEntryCount 0

def mmFrameAlloc : TraceM (Option Nat) := do
  let s ← quiet get
  quiet (kernelAssert (s.isEarlyStage = false) "!_is_early_stage")
  if s.freeHead = 0 then
    return none
  else do
    quiet (kernelAssert (mmAlignCheck s.freeHead pageSize4K) "mm_align_check(_free_head, FRAME_SIZE_4K)")
    let freeHeadVa ← mmPageDirectAccessSetup im s.freeHead
    note fun s' => .frame freeHeadVa (translate s'.mem im.tab4 freeHeadVa) s.freeHead
    let next ← quiet (readVa im freeHeadVa)
    quiet (modify fun s => { s with freeHead := next, freeCount := s.freeCount - 1 })
    mmPageDirectAccessReset im
    return some s.freeHead

def mmFrameFree (frameVa framePa : Nat) : TraceM Unit := do
  note fun s => .frame frameVa (translate s.mem im.tab4 frameVa) framePa
  quiet (Page.mmFrameFree im frameVa framePa)

def spareFrame (framePa : Nat) : TraceM (Option Nat) :=
  if framePa = 0 then do
    match ← mmFrameAlloc im with
    | none => return none
    | some framePa =>
      let frameVa ← mmPageDirectAccessSetup im framePa
      tabZeroLoop im framePa frameVa tabEntryCount
      mmPageDirectAccessReset im
      return some framePa
  else
    return some framePa

def linkTable (level tabPa entryVa framePa : Nat) : TraceM Nat := do
  let entry ← readTab im tabPa entryVa
  if tabEntryIsPresent entry then
    return framePa
  else do
    quiet (kernelAssert (entry = 0) "_tab_entry_is_zero(entry)")
    quiet (kernelAssert (framePa ≠ 0) "frame_pa != UPTR_NULL")
    let e ← quiet (tabEntryInit level true true framePa pageSize4K)
    writeTab im tabPa entryVa e
    return 0

def mapLoop (va : Nat) : Nat → Nat → Nat → TraceM (Bool × Nat × Nat)
  | lv + 2, tabPa, framePa => do
    match ← spareFrame im framePa with
    | none => return (false, tabPa, framePa)
    | some framePa =>
      let tabVa ← mmPageDirectAccessSetup im tabPa
      let idx ← quiet (vaddTabIndex va (lv + 2))
      let framePa ← linkTable im (lv + 2) tabPa (tabVa + tabEntryLen * idx) framePa
      let entry ← readTab im tabPa (tabVa + tabEntryLen * idx)
      mmPageDirectAccessReset im
      mapLoop va (lv + 1) (tabEntryGetPadd entry) framePa
  | _, tabPa, framePa => return (true, tabPa, framePa)

def mapLeaf (va pa tabPa : Nat) : TraceM Unit := do
  let tabVa ← mmPageDirectAccessSetup im tabPa
  let idx ← quiet (vaddTabIndex va 1)
  let entry ← readTab im tabPa (tabVa + tabEntryLen * idx)
  quiet (kernelAssert (entry = 0) "_tab_entry_is_zero(entry)")
  let e ← quiet (tabEntryInit 1 true true pa pageSize4K)
  writeTab im tabPa (tabVa + tabEntryLen * idx) e
  mmPageDirectAccessReset im

def returnFrame (framePa : Nat) : TraceM Unit := do
  let frameVa ← mmPageDirectAccessSetup im framePa
  mmFrameFree im frameVa framePa
  mmPageDirectAccessReset im

def mmPageMap (va pa : Nat) : TraceM Bool := do
  quiet (kernelAssert (mmAlignCheck va pageSize4K) "mm_align_check(va, PAGE_SIZE_4K)")
  quiet (kernelAssert (mmAlignCheck pa pageSize4K) "mm_align_check(pa, PAGE_SIZE_4K)")
  let r ← mapLoop im va 4 im.tab4 0
  let reset ← quiet (directAccessIsReset im)
  quiet (kernelAssert reset "_direct_access_is_reset()")
  (if r.1 then mapLeaf im va pa r.2.1 else pure ())
  (if r.2.2 ≠ 0 then returnFrame im r.2.2 else pure ())
  return r.1

def unmapDown (va : Nat) : Nat → (Nat → Nat) → TraceM (Nat × Bool × (Nat → Nat))
  | 0, tabPa => return (0, false, tabPa)
  | lv + 1, tabPa => do
    let idx ← quiet (vaddTabIndex va (lv + 1))
    let tabVa ← mmPageDirectAccessSetup im (tabPa (lv + 1))
    let entry ← readTab im (tabPa (lv + 1)) (tabVa + tabEntryLen * idx)
    quiet (kernelAssert (tabEntryIsPresent entry) "_tab_entry_is_present(entry_va_tmp)")
    quiet (if tabEntryIsHuge entry then kernelAssert (lv + 1 = 2) "lv == TAB_LEVEL_2" else pure ())
    mmPageDirectAccessReset im
    let tabPa := Function.update tabPa lv (tabEntryGetPadd entry)
    if tabEntryIsHuge entry then
      return (lv, true, tabPa)
    else
      unmapDown va lv tabPa

def freeFramesLoop : Nat → Nat → Nat → TraceM Unit
  | 0, _, _ => return ()
  | n + 1, va, pa => do
    mmFrameFree im va pa
    freeFramesLoop n (u64 (va + pageSize4K)) (u64 (pa + pageSize4K))

def unmapUp (va : Nat) (tabPa : Nat → Nat) : Nat → Nat → TraceM Unit
  | 0, _ => return ()
  | n + 1, lv => do
    let idx ← quiet (vaddTabIndex va lv)
    let tabVa ← mmPageDirectAccessSetup im (tabPa lv)
    writeTab im (tabPa lv) (tabVa + tabEntryLen * idx) 0
    let tabEmpty ← tabIsZero im (tabPa lv) tabVa
    (if tabEmpty then mmFrameFree im tabVa (tabPa lv) else pure ())
    mmPageDirectAccessReset im
    if tabEmpty then unmapUp va tabPa n (lv + 1) else return ()

def unmapFree (va size lv pa : Nat) (huge freeFrame : Bool) : TraceM Unit :=
  if lv = 1 then do
    quiet (kernelAssert (size = pageSize4K) "size == PAGE_SIZE_4K")
    quiet (kernelAssert (huge = false) "huge == false")
    quiet (kernelAssert (mmAlignCheck pa pageSize4K) "mm_align_check(pa, PAGE_SIZE_4K)")
    if freeFrame then mmFrameFree im va pa else return ()
  else if lv = 2 then do
    quiet (kernelAssert (size = pageSize2M) "size == PAGE_SIZE_2M")
    quiet (kernelAssert (huge = true) "huge == true")
    quiet (kernelAssert (mmAlignCheck pa pageSize2M) "mm_align_check(pa, PAGE_SIZE_2M)")
    if freeFrame then freeFramesLoop im (pageSize2M / pageSize4K) va pa else return ()
  else
    quiet (throw (.panic "Invalid page table level"))

def unmap (va size : Nat) (freeFrame : Bool) : TraceM Nat := do
  quiet (kernelAssert (mmAlignCheck va size) "mm_align_check(va, size)")
  let r ← unmapDown im va 4 (Function.update (fun _ => 0) 4 im.tab4)
  let lv := r.1 + 1
  quiet (kernelAssert (lv = 1 ∨ lv = 2) "lv == TAB_LEVEL_1 || lv == TAB_LEVEL_2")
  let off ← quiet (vaddPageOffset va lv)
  let pa := u64 (r.2.2 (lv - 1) + off)
  unmapFree im va size lv pa r.2.1 freeFrame
  unmapUp im va r.2.2 (5 - lv) lv
  return pa

end Code

/-! ## It is the same code -/

section Shows

variable {im : Image}

theorem setup_shows (padd : Nat) : Shows (Page.mmPageDirectAccessSetup im padd) (mmPageDirectAccessSetup im padd) :=
  (Shows.quiet _).note _

theorem reset_shows : Shows (Page.mmPageDirectAccessReset im) (mmPageDirectAccessReset im) := (Shows.quiet _).note _

theorem readTab_shows (tab va : Nat) : Shows (readVa im va) (readTab im tab va) := (Shows.quiet _).note _

theorem writeTab_shows (tab va v : Nat) : Shows (writeVa im va v) (writeTab im tab va v) := (Shows.quiet _).note _

theorem mmFrameFree_shows (va f : Nat) : Shows (Page.mmFrameFree im va f) (mmFrameFree im va f) := (Shows.quiet _).note _

theorem tabZeroLoop_shows (tab va : Nat) : ∀ n, Shows (Page.tabZeroLoop im va n) (tabZeroLoop im tab va n)
  | 0 => .pure ()
  | n + 1 => (tabZeroLoop_shows tab va n).bind fun _ => writeTab_shows tab _ _

theorem tabIsZeroLoop_shows (tab va : Nat) : ∀ n i, Shows (Page.tabIsZeroLoop im va n i) (tabIsZeroLoop im tab va n i)
  | 0, _ => .pure true
  | n + 1, i => (readTab_shows tab _).bind fun _ => .ite (tabIsZeroLoop_shows tab va n (i + 1)) (.pure false)

theorem tabIsZero_shows (tab va : Nat) : Shows (Page.tabIsZero im va) (tabIsZero im tab va) :=
  (Shows.quiet _).bind fun _ => tabIsZeroLoop_shows tab va _ _

theorem mmFrameAlloc_shows : Shows (Page.mmFrameAlloc im) (mmFrameAlloc im) := by
  refine (Shows.quiet _).bind fun s => (Shows.quiet _).bind fun _ => .ite (.pure none) ?_
  refine (Shows.quiet _).bind fun _ => (setup_shows _).bind fun va => Shows.note _ ((Shows.quiet _).bind fun next => ?_)
  exact (Shows.quiet _).bind fun _ => reset_shows.bind fun _ => .pure _

theorem spareFrame_shows (f : Nat) : Shows (Page.spareFrame im f) (spareFrame im f) := by
  refine .ite (mmFrameAlloc_shows.bind fun r => ?_) (.pure _)
  cases r with
  | none => exact .pure none
  | some f =>
    exact (setup_shows f).bind fun va => (tabZeroLoop_shows f va _).bind fun _ => reset_shows.bind fun _ => .pure _

theorem linkTable_shows (level tab va f : Nat) : Shows (Page.linkTable im level va f) (linkTable im level tab va f) := by
  refine (readTab_shows tab va).bind fun entry => .ite (.pure f) ((Shows.quiet _).bind fun _ => (Shows.quiet _).bind fun _ => ?_)
  exact (Shows.quiet _).bind fun e => (writeTab_shows tab va e).bind fun _ => .pure 0

theorem mapLoop_shows (va : Nat) : ∀ lv t f, Shows (Page.mapLoop im va lv t f) (mapLoop im va lv t f)
  | 0, _, _ => .pure _
  | 1, _, _ => .pure _
  | lv + 2, t, f => by
    rw [Page.mapLoop, mapLoop]
    refine (spareFrame_shows f).bind fun r => ?_
    cases r with
    | none => exact .pure _
    | some f =>
      refine (setup_shows t).bind fun tabVa => (Shows.quiet _).bind fun idx => (linkTable_shows _ t _ f).bind fun f' => ?_
      exact (readTab_shows t _).bind fun entry => reset_shows.bind fun _ => mapLoop_shows va (lv + 1) _ f'

theorem mapLeaf_shows (va pa t : Nat) : Shows (Page.mapLeaf im va pa t) (mapLeaf im va pa t) := by
  refine (setup_shows t).bind fun tabVa => (Shows.quiet _).bind fun idx => (readTab_shows t _).bind fun entry => ?_
  exact (Shows.quiet _).bind fun _ => (Shows.quiet _).bind fun e => (writeTab_shows t _ e).bind fun _ => reset_shows

theorem returnFrame_shows (f : Nat) : Shows (Page.returnFrame im f) (returnFrame im f) :=
  (setup_shows f).bind fun va => (mmFrameFree_shows va f).bind fun _ => reset_shows

theorem mmPageMap_shows (va pa : Nat) : Shows (Page.mmPageMap im va pa) (mmPageMap im va pa) := by
  refine (Shows.quiet _).bind fun _ => (Shows.quiet _).bind fun _ => (mapLoop_shows va 4 _ 0).bind fun r => ?_
  refine (Shows.quiet _).bind fun reset => (Shows.quiet _).bind fun _ =>
    Shows.bind (.ite (mapLeaf_shows va pa _) (.pure ())) fun _ => ?_
  exact Shows.bind (.ite (returnFrame_shows _) (.pure ())) fun _ => .pure _

theorem unmapDown_shows (va : Nat) : ∀ lv tabPa, Shows (Page.unmapDown im va lv tabPa) (unmapDown im va lv tabPa)
  | 0, _ => .pure _
  | lv + 1, tabPa => by
    rw [Page.unmapDown, unmapDown]
    refine (Shows.quiet _).bind fun idx => (setup_shows _).bind fun tabVa => (readTab_shows _ _).bind fun entry => ?_
    refine (Shows.quiet _).bind fun _ => (Shows.quiet _).bind fun _ => reset_shows.bind fun _ => .ite (.pure _) ?_
    exact unmapDown_shows va lv _

theorem freeFramesLoop_shows : ∀ n va pa, Shows (Page.freeFramesLoop im n va pa) (freeFramesLoop im n va pa)
  | 0, _, _ => .pure ()
  | n + 1, va, pa => (mmFrameFree_shows va pa).bind fun _ => freeFramesLoop_shows n _ _

theorem unmapUp_shows (va : Nat) (tabPa : Nat → Nat) : ∀ n lv, Shows (Page.unmapUp im va tabPa n lv) (unmapUp im va tabPa n lv)
  | 0, _ => .pure ()
  | n + 1, lv => by
    rw [Page.unmapUp, unmapUp]
    refine (Shows.quiet _).bind fun idx => (setup_shows _).bind fun tabVa => (writeTab_shows _ _ 0).bind fun _ => ?_
    refine (tabIsZero_shows _ tabVa).bind fun b => Shows.bind (.ite (mmFrameFree_shows _ _) (.pure ())) fun _ => ?_
    exact reset_shows.bind fun _ => .ite (unmapUp_shows va tabPa n (lv + 1)) (.pure ())

theorem unmapFree_shows (va size lv pa : Nat) (huge free : Bool) :
    Shows (Page.unmapFree im va size lv pa huge free) (unmapFree im va size lv pa huge free) := by
  refine .ite ?_ (.ite ?_ (.quiet _))
  · refine (Shows.quiet _).bind fun _ => (Shows.quiet _).bind fun _ => (Shows.quiet _).bind fun _ => ?_
    exact .ite (mmFrameFree_shows va pa) (.pure ())
  · refine (Shows.quiet _).bind fun _ => (Shows.quiet _).bind fun _ => (Shows.quiet _).bind fun _ => ?_
    exact .ite (freeFramesLoop_shows _ va pa) (.pure ())

theorem unmap_shows (va size : Nat) (free : Bool) : Shows (Page.unmap im va size free) (unmap im va size free) := by
  refine (Shows.quiet _).bind fun _ => (unmapDown_shows va 4 _).bind fun r => (Shows.quiet _).bind fun _ => ?_
  refine (Shows.quiet _).bind fun off => (unmapFree_shows va size _ _ _ free).bind fun _ => ?_
  exact (unmapUp_shows va _ _ _).bind fun _ => .pure _

end Shows

end Observed

end Cing.Page
