/-
mem_frame.c: what the kernel finds out about physical memory at boot. The sections of available memory come from the
memory map of the boot loader, the range of the kernel image from its ELF sections, and the frame map is put into the
first section of more than 8M. Addresses are added on 64-bit words, and the sums are compared without a check for a carry.
-/
import Cing.Lib.Bytes
import Cing.Mem.Model

namespace Cing

/-- What the drivers know: the frame buffer of the VESA driver and where the config space of each PCIe group starts. -/
structure MemDevices where
  fb : Nat
  fbLen : Nat
  groups : List Nat

/-- The static variables of mem_frame.c and `boot_stage`, and which bytes of a payload were read (where from, how many). -/
structure FrameState extends MemMachine where
  bootStage : Nat
  pmemSize : Nat
  frameMap : Nat
  frameMapCap : Nat
  reads : List (Nat × Nat)

abbrev FrameM := EStateM Stop FrameState

namespace Mem

/-- `_SECTION_CAP`. -/
def sectionCap : Nat := 32

/-- `mem_align_up`. -/
def memAlignUp (p align : Nat) : FrameM Nat := do
  kernelAssert (align > 0) "align > 0"
  kernelAssert (utilMathIsPow2 align) "util_math_is_pow2(align)"
  return u64 (p + u64Sub align 1) &&& (2 ^ 64 - 1 - u64Sub align 1)

/-! ## The memory map -/

section MemoryMap

variable (mmap : Bytes.Mem)

/-- The section an entry of the memory map describes. -/
def mmapSection (en : Nat) : MemSection := ⟨Bytes.load mmap (8 + 24 * en) 8, Bytes.load mmap (8 + 24 * en + 8) 8⟩

/-- The type of an entry of the memory map. -/
def mmapType (en : Nat) : Nat := Bytes.load mmap (8 + 24 * en + 16) 4

/-- The body of the loop of `_bootstrap_mmap_info`. -/
def mmapRound (en : Nat) : FrameM Unit :=
  if mmapType mmap en ≠ 1 then return ()
  else do
    let s ← get
    kernelAssert (s.secCnt < sectionCap) "_sec_cnt < _SECTION_CAP"
    set { s with sections := Function.update s.sections s.secCnt (mmapSection mmap en) }
    kernelAssert (memAlignCheck (mmapSection mmap en).base pageSize4K) "mem_align_check(_sections[_sec_cnt].base, PAGE_SIZE_4K)"
    (if s.secCnt > 0 then
      kernelAssert ((mmapSection mmap en).base > u64 ((s.sections (s.secCnt - 1)).base + (s.sections (s.secCnt - 1)).len))
        "_sections[_sec_cnt].base > last_end"
    else pure ())
    modify fun s => { s with secCnt := s.secCnt + 1, pmemSize := u64 (s.pmemSize + (mmapSection mmap en).len) }

/-- The first `n` rounds of the loop of `_bootstrap_mmap_info`. -/
def mmapLoop : Nat → FrameM Unit
  | 0 => return ()
  | n + 1 => do
    mmapLoop n
    mmapRound mmap n

/-- `_bootstrap_mmap_info`. -/
def bootstrapMmapInfo (size : Nat) : FrameM Unit := do
  let s ← get
  kernelAssert (s.bootStage = memBootstrapStage0) "boot_stage == MEM_BOOTSTRAP_STAGE_0"
  kernelAssert (Bytes.load mmap 4 4 = 0) "entry_ver == 0"
  kernelAssert (Bytes.load mmap 0 4 = 24) "entry_size == 24"
  kernelAssert (u64Sub size 8 % Bytes.load mmap 0 4 = 0) "(size - 8) % entry_size == 0"
  modify fun s => { s with secCnt := 0, pmemSize := 0 }
  mmapLoop mmap (u64Sub size 8 / Bytes.load mmap 0 4)

end MemoryMap

/-! ## The kernel image -/

/-- `mem_pa_range_valid`. -/
def memPaRangeValid (dbg : Bool) (start stop : Nat) : FrameM Bool := do
  let s ← get
  kernelAssertD dbg (s.secCnt > 0) "_sec_cnt > 0"
  return (List.range s.secCnt).any fun i =>
    (s.sections i).base ≤ start && u64 ((s.sections i).base + (s.sections i).len) > stop

section Elf

variable (dbg : Bool) (elfInfo : Bytes.Mem)

/-- Reads `n` bytes of the payload. -/
def elfRead (off n : Nat) : FrameM Nat := do
  modify fun s => { s with reads := (off, n) :: s.reads }
  return Bytes.load elfInfo off n

/-- The body of the loop of `_bootstrap_kernel_elf_symbols`: the entry is at `entry`. -/
def elfRound (entry : Nat) : FrameM Unit := do
  let type ← elfRead elfInfo (entry + 4) 4
  if type ≠ 0 then do
    let addr ← elfRead elfInfo (entry + 16) 8
    modify fun s => { s with kernStartPa := if addr < s.kernStartPa then addr else s.kernStartPa }
    let size ← elfRead elfInfo (entry + 32) 8
    modify fun s => { s with kernEndPa := if u64 (size + addr) > s.kernEndPa then u64 (size + addr) else s.kernEndPa }
  else return ()

/-- The first `n` rounds of the loop of `_bootstrap_kernel_elf_symbols`. -/
def elfLoop (secSize : Nat) : Nat → FrameM Unit
  | 0 => return ()
  | n + 1 => do
    elfLoop secSize n
    elfRound elfInfo (12 + n * secSize)

/-- `_bootstrap_kernel_elf_symbols`, which is itself at `self`. -/
def bootstrapKernelElfSymbols (self : Nat) : FrameM Unit := do
  let s ← get
  kernelAssert (s.bootStage = memBootstrapStage0) "boot_stage == MEM_BOOTSTRAP_STAGE_0"
  let secCnt ← elfRead elfInfo 0 4
  let secSize ← elfRead elfInfo 4 4
  modify fun s => { s with kernStartPa := 2 ^ 64 - 1, kernEndPa := 0 }
  elfLoop elfInfo secSize secCnt
  let s ← get
  kernelAssert (u64Sub s.kernEndPa s.kernStartPa < 1024 * 1024 * 1024) "(_kern_end_pa - _kern_start_pa) < 1024 * 1024 * 1024"
  kernelAssert (self < s.kernEndPa) "(uptr_t)_bootstrap_kernel_elf_symbols < _kern_end_pa"
  kernelAssert (self > s.kernStartPa) "(uptr_t)_bootstrap_kernel_elf_symbols > _kern_start_pa"
  let valid ← memPaRangeValid dbg s.kernStartPa s.kernEndPa
  kernelAssert (valid = true) "mem_pa_range_valid(_kern_start_pa, _kern_end_pa)"

end Elf

/-! ## The frame map -/

/-- `pa_range_overlaps`. -/
def paRangeOverlaps (a1 len1 a2 len2 : Nat) : Bool := !(decide (u64 (a1 + len1) < a2) || decide (u64 (a2 + len2) < a1))

/-- `d_pcie_group_get_cfg_len`. -/
def dPcieGroupGetCfgLen : Nat := 256 * 32 * 8 * 4 * 1024

section FrameMap

variable (dev : MemDevices)

/-- `_pa_overlaps_pcie_cfg_space`. -/
def paOverlapsPcieCfgSpace (pa len : Nat) : Bool :=
  dev.groups.any fun cfgStart => paRangeOverlaps pa len cfgStart dPcieGroupGetCfgLen

/-- `_pa_overlaps_vesa_frame_buffer`. -/
def paOverlapsVesaFrameBuffer (pa len : Nat) : Bool := paRangeOverlaps pa len dev.fb dev.fbLen

/-- The checks `mem_frame_bootstrap_2` makes of a section. -/
def sectionCheck (sec : MemSection) : FrameM Unit := do
  kernelAssert (paOverlapsPcieCfgSpace dev sec.base sec.len = false)
    "!_pa_overlaps_pcie_cfg_space(_sections[i].base, _sections[i].len)"
  kernelAssert (paOverlapsVesaFrameBuffer dev sec.base sec.len = false)
    "!_pa_overlaps_vesa_frame_buffer(_sections[i].base, _sections[i].len)"

/-- A section `mem_frame_bootstrap_2` does not ignore. -/
def big (sec : MemSection) : Bool := sec.len > 8 * 1024 * 1024

/-- The first `n` rounds of the first loop of `mem_frame_bootstrap_2`: `pa_len`. -/
def paLenLoop : Nat → FrameM Nat
  | 0 => return 0
  | n + 1 => do
    let paLen ← paLenLoop n
    let s ← get
    if big (s.sections n) then do
      sectionCheck dev (s.sections n)
      return u64 (paLen + (s.sections n).len)
    else return paLen

/-- The body of the second loop of `mem_frame_bootstrap_2`. -/
def placeRound (mapPageCnt n : Nat) : FrameM Unit := do
  let s ← get
  if big (s.sections n) then do
    sectionCheck dev (s.sections n)
    if s.frameMap = 0 then do
      let frameMap ← memAlignUp (u64 ((s.sections n).base + pageSize4K)) pageSize4K
      set { s with frameMap := frameMap }
      kernelAssert (u64 (frameMap + u64 (mapPageCnt * pageSize4K)) < u64 ((s.sections n).base + (s.sections n).len))
        "map_end < sec_end"
    else return ()
  else return ()

/-- The first `n` rounds of the second loop of `mem_frame_bootstrap_2`. -/
def placeLoop (mapPageCnt : Nat) : Nat → FrameM Unit
  | 0 => return ()
  | n + 1 => do
    placeLoop mapPageCnt n
    placeRound dev mapPageCnt n

/-- `mem_frame_bootstrap_2`. -/
def memFrameBootstrap2 : FrameM Unit := do
  let s ← get
  let paLen ← paLenLoop dev s.secCnt
  let mapPageCnt := u64 (u64 (u64 (paLen / pageSize4K * 2) * 8) / pageSize4K + 2)
  modify fun s => { s with frameMapCap := u64 (mapPageCnt * pageSize4K) / 8, frameMap := 0 }
  placeLoop dev mapPageCnt s.secCnt

end FrameMap

/-- Nothing is known yet. -/
def frameState₀ : FrameState := ⟨⟨fun _ => ⟨0, 0⟩, 0, 0, 0⟩, memBootstrapStage0, 0, 0, 0, []⟩

end Mem

end Cing
