/-
The rest of `mm_page_bootstrap`: once the pages above the kernel are out of the identity map, it maps the frame
buffer, the config spaces of the PCIe groups and a new stack in the higher half, and copies what is on the boot
stack over. The layout of mm_private.h is what is left when it returns. The frame buffer has 15M there before it
runs into the config spaces, which nothing checks.
-/
import Cing.Mm.Page.Pool
import Cing.Mm.Page.Private
import Cing.Mm.Page.Refuse

namespace Cing.Page

open Linked

/-! ## The code -/

/-- `VA_48_STACK_TOP`. -/
def va48StackTop : Nat := va48HighStart + pageSize4K

/-- `VA_48_STACK_BOTTOM`. -/
def va48StackBottom : Nat := va48StackTop + 253 * pageSize4K

/-- `VA_48_STACK_BOTTOM_GUARD`. -/
def va48StackBottomGuard : Nat := va48StackBottom + pageSize4K

/-- `VA_48_FRAME_BUFFER`. -/
def va48FrameBuffer : Nat := va48StackBottomGuard + pageSize4K

section Code

variable (im : Image) (mach : Machine)

/-- The loop of `_bootstrap_vesa_frame_buffer` from `map_size` on, at most `n` rounds. -/
def bootstrapVesaLoop : Nat → Nat → PageM Unit
  | 0, _ => throw .hang
  | n + 1, mapSize =>
    if mapSize < mach.fbLen then do
      let ok ← mmPageMap im (u64 (va48FrameBuffer + mapSize)) (u64 (mach.fb + mapSize))
      kernelAssert (ok = true) "ok == true"
      bootstrapVesaLoop n (u64 (mapSize + pageSize4K))
    else
      return ()

/-- `_bootstrap_vesa_frame_buffer`: the address it gives to `d_vesa_set_frame_buffer`. -/
def bootstrapVesaFrameBuffer (n : Nat) : PageM Nat := do
  kernelAssert (mach.fb % pageSize4K = 0) "fb % PAGE_SIZE_4K == 0"
  bootstrapVesaLoop im mach n 0
  return va48FrameBuffer

/-- The inner loop of `_bootstrap_pcie_cfg_space`, at most `n` rounds: `va` at its end. -/
def bootstrapPcieLoop (cfgEnd : Nat) : Nat → Nat → Nat → PageM Nat
  | 0, _, _ => throw .hang
  | n + 1, va, pa =>
    if pa < cfgEnd then do
      kernelAssert (va < va48PcieCfgEnd) "va < VA_48_PCIE_CFG_END"
      let ok ← mmPageMap im va pa
      kernelAssert (ok = true) "ok == true"
      bootstrapPcieLoop cfgEnd n (u64 (va + pageSize4K)) (u64 (pa + pageSize4K))
    else
      return va

/-- The loop of `_bootstrap_pcie_cfg_space` over the groups, from `va` on. -/
def bootstrapPcieGroups (n : Nat) : List Nat → Nat → PageM Unit
  | [], _ => return ()
  | cfgStart :: groups, va => do
    let va ← bootstrapPcieLoop im (u64 (cfgStart + dPcieGroupGetCfgLen)) n va cfgStart
    bootstrapPcieGroups n groups va

/-- `_bootstrap_pcie_cfg_space`. -/
def bootstrapPcieCfgSpace (n : Nat) : PageM Unit := bootstrapPcieGroups im n mach.pcieCfg va48PcieCfgStart

/-- The loop of `_bootstrap_stack_memory` from `page` on, at most `n` rounds. The result of `mm_page_map` is not looked at. -/
def bootstrapStackLoop : Nat → Nat → PageM Unit
  | 0, _ => throw .hang
  | n + 1, page =>
    if page ≤ va48StackBottom then do
      let r ← mmFrameAlloc im
      kernelAssert (r.isSome = true) "ok == true"
      let _ ← mmPageMap im page (r.getD 0)
      bootstrapStackLoop n (u64 (page + pageSize4K))
    else
      return ()

/-- `mm_copy` of `n` words: both ends are multiples of 8. -/
def mmCopyWords (dest src : Nat) : Nat → PageM Unit
  | 0 => return ()
  | n + 1 => do
    mmCopyWords dest src n
    let v ← readVa im (src + 8 * n)
    writeVa im (dest + 8 * n) v

/-- `_bootstrap_stack_memory`. The local `stack_position`, at a multiple of 8, is the end of the boot stack in use. -/
def bootstrapStackMemory (n bootStackTop bootStackBottom stackPosition : Nat) : PageM Unit := do
  bootstrapStackLoop im n va48StackTop
  kernelAssert (mmAlignCheck bootStackBottom pageSize4K) "mm_align_check(boot_stack_bottom, PAGE_SIZE_4K)"
  kernelAssert (mmAlignCheck bootStackTop pageSize4K) "mm_align_check(boot_stack_top, PAGE_SIZE_4K)"
  kernelAssert (stackPosition > bootStackTop) "((uptr_t)&stack_position) > boot_stack_top"
  kernelAssert (stackPosition < bootStackBottom) "((uptr_t)&stack_position) < boot_stack_bottom"
  let stackLen := u64Sub bootStackBottom stackPosition
  kernelAssert (stackLen < pageSize4K) "stack_len < PAGE_SIZE_4K"
  mmCopyWords im (u64Sub va48StackBottom stackLen) stackPosition (stackLen / 8)

/-- `mm_page_bootstrap`: the frame buffer that the driver has then. The loops take at most `n` rounds. -/
def mmPageBootstrap (n earlyMapEnd bootStackTop bootStackBottom stackPosition : Nat) : PageM Nat := do
  let page ← mmPageBootstrapUnmap im mach n
  kernelAssert (page = earlyMapEnd) "unmap == _early_map_end"
  let buf ← bootstrapVesaFrameBuffer im mach n
  bootstrapPcieCfgSpace im mach n
  bootstrapStackMemory im n bootStackTop bootStackBottom stackPosition
  return buf

end Code

variable {im : Image} {mach : Machine} {s s' s'' : PageState} {F : List Nat} {va : Nat}

/-! ## Strips of pages -/

/-- The `n` pages from `va` on lead to the pages `pa 0`, `pa 1`, …, and no other translation changed. -/
structure Strip (im : Image) (va : Nat) (pa : Nat → Nat) (n : Nat) (s s' : PageState) : Prop where
  here : ∀ i < n, ∀ va', SamePage va' (va + 4096 * i) → lookup s'.mem im.tab4 va' = some ⟨pa i, true, false⟩
  elsewhere : ∀ va', (∀ i < n, ¬ SamePage va' (va + 4096 * i)) → lookup s'.mem im.tab4 va' = lookup s.mem im.tab4 va'

theorem Strip.nil (im : Image) (va : Nat) (pa : Nat → Nat) (s : PageState) : Strip im va pa 0 s s := ⟨nofun, fun _ _ => rfl⟩

/-- One page. -/
theorem Strip.one {pa : Nat → Nat} {N : List Nat} (h : Mapped im va (pa 0) s s' N) : Strip im va pa 1 s s' := by
  refine ⟨fun i hi va' hs => ?_, fun va' hs => h.elsewhere va' (hs 0 (by omega))⟩
  obtain rfl : i = 0 := by omega
  exact h.here va' hs

/-- A strip behind a strip. -/
theorem Strip.append {pa : Nat → Nat} {m n : Nat} (h : Strip im va pa m s s')
    (h' : Strip im (va + 4096 * m) (fun i => pa (m + i)) n s' s'') (hlen : 4096 * (m + n) ≤ 2 ^ 48) :
    Strip im va pa (m + n) s s'' := by
  have hnext : ∀ i, va + 4096 * m + 4096 * i = va + 4096 * (m + i) := fun i => by omega
  refine ⟨fun i hi va' hs => ?_, fun va' hs => ?_⟩
  · by_cases hm : i < m
    · refine (h'.elsewhere va' fun j hj hs' => ?_).trans (h.here i hm va' hs)
      unfold SamePage pageSize4K at hs hs'
      omega
    · obtain ⟨j, rfl⟩ := Nat.exists_eq_add_of_le (Nat.not_lt.1 hm)
      rw [← hnext] at hs
      exact h'.here j (by omega) va' hs
  · refine (h'.elsewhere va' fun j hj => ?_).trans (h.elsewhere va' fun i hi => hs i (by omega))
    rw [hnext]
    exact hs (m + j) (by omega)

theorem Strip.congr {pa pa' : Nat → Nat} {n : Nat} (h : Strip im va pa n s s') (he : ∀ i < n, pa i = pa' i) :
    Strip im va pa' n s s' :=
  ⟨fun i hi => he i hi ▸ h.here i hi, h.elsewhere⟩

/-! ## A page -/

/-- What mapping does to the frames: none comes to the list, and one in use stays in use. -/
structure Laid (im : Image) (s s' : PageState) : Prop where
  reach : Reach im s'
  free : ∀ f, OnFreeList s' f → OnFreeList s f
  inUse : ∀ f, NotInUse im s f → NotInUse im s' f

theorem Laid.refl (h : Reach im s) : Laid im s s := ⟨h, fun _ => id, fun _ => id⟩

theorem Laid.trans (h : Laid im s s') (h' : Laid im s' s'') : Laid im s s'' :=
  ⟨h'.reach, fun f hf => h.free f (h'.free f hf), fun f hf => h'.inUse f (h.inUse f hf)⟩

theorem Unused.notInUse {g : Nat} (hg : Unused im s F g) (h : Inv im s F) : NotInUse im s g :=
  ⟨hg.frame, fun hf => hg.notFree (h.onFreeList.1 hf), fun ⟨q, hq⟩ => hg.notTable q hq⟩

theorem Reach.alloc_laid {f : Nat} (h : Reach im s) (hrun : mmFrameAlloc im s = .ok (some f) s') :
    Laid im s s' ∧ OnFreeList s f ∧ NotInUse im s' f ∧ IsPage f ∧ s'.mem = s.mem ∧ ¬ OnFreeList s' f := by
  obtain ⟨F, hinv⟩ := h.inv
  obtain ⟨F', rfl, hpage, rfl⟩ := mmFrameAlloc_some hinv hrun
  obtain ⟨hpop, hu⟩ := hinv.pop
  refine ⟨⟨.alloc h hrun, fun g hg => ?_, fun g hg => ?_⟩, hinv.onFreeList.2 (List.mem_cons_self ..), hu.notInUse hpop, hpage, rfl,
    fun hf => hu.notFree (hpop.onFreeList.1 hf)⟩
  · exact hinv.onFreeList.2 (List.mem_cons_of_mem _ (hpop.onFreeList.1 hg))
  · have hu' : Unused im (popFrame s) F' g := (hinv.unused hg).mono (fun hn hx => hn (List.mem_cons_of_mem _ hx)) .inl
    exact hu'.notInUse hpop

/-- A call of `mm_page_map`: it mapped the page, or the list is empty and no translation changed. -/
theorem Reach.map_laid {pa : Nat} {ok : Bool} (h : Reach im s) (hal : va % 4096 = 0) (hw : ¬ SamePage va directVadd)
    (hnone : lookup s.mem im.tab4 va = none) (hpa : IsPage pa) (hrun : mmPageMap im va pa s = .ok ok s') :
    Laid im s s' ∧ (ok = true → ∃ N, Mapped im va pa s s' N) ∧
      (ok = false → (∀ f, ¬ OnFreeList s' f) ∧ ∀ va', lookup s'.mem im.tab4 va' = lookup s.mem im.tab4 va') := by
  obtain ⟨F, hinv⟩ := h.inv
  obtain ⟨F', N, hinv', rfl, hfail, hok⟩ := mmPageMap_ok hinv hal hw hnone hpa hrun
  refine ⟨⟨.map h hal hw hnone hpa hrun, fun g hg => ?_, fun g hg => ?_⟩, fun ht => ⟨N, hok ht⟩,
    fun hf => ⟨fun f hm => ?_, (hfail hf).2.lookup⟩⟩
  · exact hinv.onFreeList.2 (List.mem_append_right _ (hinv'.onFreeList.1 hg))
  · have hcode : (Call.map va pa).code im s = .ok () s' := Exec.bind_ok hrun
    obtain ⟨F₁, h₁, hu, -⟩ := Call.keepsFrame (c := .map va pa) hinv ⟨hal, hw, hnone, hpa⟩ trivial (hinv.unused hg) hcode
    exact hu.notInUse h₁
  · rw [hinv'.onFreeList, (hfail hf).1] at hm
    cases hm

/-- No call maps a 4K page a second time. -/
theorem Reach.taken {pa : Nat} {l : Leaf} (h : Reach im s) (hal : va % 4096 = 0) (hl : lookup s.mem im.tab4 va = some l)
    (hh : l.huge = false) (hpa : pa % 4096 = 0) : mmPageMap im va pa s ≠ .ok true s' := by
  obtain ⟨F, hinv⟩ := h.inv
  intro hrun
  have hnot : ¬ Refused im s va pa := by
    rintro ⟨expr, s₁, hrefused, -⟩
    rw [hrun] at hrefused
    cases hrefused
  cases F with
  | nil =>
    have hal1 : mmAlignCheck va pageSize4K = true := mmAlignCheck_iff.2 hal
    have hal2 : mmAlignCheck pa pageSize4K = true := mmAlignCheck_iff.2 hpa
    have hloop : mapLoop im va 4 im.tab4 0 s = .ok (false, im.tab4, 0) s := by
      rw [mapLoop, Exec.bind_ok (spareFrame_nil hinv)]
      rfl
    unfold mmPageMap at hrun
    rw [Exec.bind_ok (kernelAssert_pos hal1 _ s), Exec.bind_ok (kernelAssert_pos hal2 _ s), Exec.bind_ok hloop,
      Exec.bind_ok (directAccessIsReset_run hinv.window), Exec.bind_ok (kernelAssert_pos rfl _ _)] at hrun
    cases hrun
  | cons f F =>
    by_cases hf : IsPage f
    · exact hnot (refused_4K hinv hf hal hpa hl hh)
    · exact hnot (refused_high hinv hf hal hpa)

/-! ## The frame buffer -/

/-- The pages of the frame buffer. -/
def fbPages (mach : Machine) : Nat := (mach.fbLen + 4095) / 4096

/-- The loop of `_bootstrap_vesa_frame_buffer`, from page `i` on. -/
theorem bootstrapVesaLoop_ok (hal : mach.fb % 4096 = 0) (hfb : mach.fb + mach.fbLen ≤ va48LowEnd + 1)
    (hlen : mach.fbLen ≤ va48DirectAccessPage - va48FrameBuffer) : ∀ {n i : Nat} {s : PageState}, Reach im s → i ≤ fbPages mach →
    (∀ j, i ≤ j → j < fbPages mach → lookup s.mem im.tab4 (va48FrameBuffer + 4096 * j) = none) →
    bootstrapVesaLoop im mach n (4096 * i) s = .ok () s' →
    Laid im s s' ∧ Strip im (va48FrameBuffer + 4096 * i) (fun j => mach.fb + 4096 * (i + j)) (fbPages mach - i) s s'
  | 0, _, _, _, _, _, hrun => by cases hrun
  | n + 1, i, s, h, hi, hnone, hrun => by
    have hstart : va48FrameBuffer = 18446603336222244864 := rfl
    have hend : va48DirectAccessPage - va48FrameBuffer = 4310695936 := rfl
    have hwin : directVadd = 18446603340532940800 := rfl
    rw [hend] at hlen
    unfold va48LowEnd at hfb
    rw [bootstrapVesaLoop] at hrun
    split at hrun
    case isFalse hlt =>
      have hdone : fbPages mach - i = 0 := by unfold fbPages at hi ⊢; omega
      cases hrun
      rw [hdone]
      exact ⟨.refl h, .nil ..⟩
    case isTrue hlt =>
      have hi' : i < fbPages mach := by unfold fbPages; omega
      rw [u64_of_lt (n := va48FrameBuffer + 4096 * i) (by rw [hstart]; omega), u64_of_lt (n := mach.fb + 4096 * i) (by omega),
        show u64 (4096 * i + pageSize4K) = 4096 * (i + 1) by unfold u64 pageSize4K; omega] at hrun
      obtain ⟨ok, s₁, hmap, hrun⟩ := Exec.bind_eq_ok.1 hrun
      obtain ⟨_, s₂, hcheck, hrun⟩ := Exec.bind_eq_ok.1 hrun
      obtain ⟨rfl, rfl⟩ := kernelAssert_ok hcheck
      have hw : ¬ SamePage (va48FrameBuffer + 4096 * i) directVadd := by
        rw [hstart, hwin]
        unfold SamePage pageSize4K
        omega
      have hpa : IsPage (mach.fb + 4096 * i) := by unfold IsPage pageSize4K va48LowEnd; omega
      obtain ⟨hl₁, hok, -⟩ := h.map_laid (by rw [hstart]; omega) hw (hnone i le_rfl hi') hpa hmap
      obtain ⟨N, hm⟩ := hok rfl
      obtain ⟨hl', hstrip⟩ := bootstrapVesaLoop_ok hal (by unfold va48LowEnd; omega) (by rw [hend]; omega) hl₁.reach hi'
          (fun j h1 h2 => by
        refine (hm.elsewhere _ fun hs => ?_).trans (hnone j (by omega) h2)
        unfold fbPages at h2
        rw [hstart] at hs
        unfold SamePage pageSize4K at hs
        omega) hrun
      refine ⟨hl₁.trans hl', ?_⟩
      rw [show fbPages mach - i = 1 + (fbPages mach - (i + 1)) by omega]
      refine (Strip.one (N := N) hm).append ?_ (by unfold fbPages; omega)
      rw [Nat.add_assoc, show 4096 * i + 4096 * 1 = 4096 * (i + 1) by omega]
      exact hstrip.congr fun j _ => by omega

/-! ## The config spaces -/

/-- The page that the `m`-th page of config space leads to. -/
def pciePa (groups : List Nat) (m : Nat) : Nat := groups.getD (m / 65536) 0 + 4096 * (m % 65536)

/-- The pages of one group, from page `i` on. -/
theorem bootstrapPcieLoop_ok {g k : Nat} (hal : g % 2 ^ 28 = 0) (hg : g + 2 ^ 28 ≤ va48LowEnd + 1) (hk : k < 16) : ∀ {n i r : Nat}
    {s : PageState}, Reach im s → i ≤ 65536 →
    (∀ j, i ≤ j → j < 65536 → lookup s.mem im.tab4 (va48PcieCfgStart + 2 ^ 28 * k + 4096 * j) = none) →
    bootstrapPcieLoop im (g + 2 ^ 28) n (va48PcieCfgStart + 2 ^ 28 * k + 4096 * i) (g + 4096 * i) s = .ok r s' →
    r = va48PcieCfgStart + 2 ^ 28 * (k + 1) ∧ Laid im s s' ∧
      Strip im (va48PcieCfgStart + 2 ^ 28 * k + 4096 * i) (fun j => g + 4096 * (i + j)) (65536 - i) s s'
  | 0, _, _, _, _, _, _, hrun => by cases hrun
  | n + 1, i, r, s, h, hi, hnone, hrun => by
    have hstart : va48PcieCfgStart = 18446603336237973504 := rfl
    have hend : va48PcieCfgEnd = 18446603340532940800 := rfl
    have hwin : directVadd = 18446603340532940800 := rfl
    unfold va48LowEnd at hg
    rw [bootstrapPcieLoop] at hrun
    split at hrun
    case isFalse hlt =>
      obtain rfl : i = 65536 := by omega
      cases hrun
      exact ⟨by omega, .refl h, .nil ..⟩
    case isTrue hlt =>
      have hi' : i < 65536 := by omega
      obtain ⟨_, s₀, hbound, hrest⟩ := Exec.bind_eq_ok.1 hrun
      obtain ⟨-, rfl⟩ := kernelAssert_ok hbound
      obtain ⟨ok, s₁, hmap, hrun⟩ := Exec.bind_eq_ok.1 hrest
      obtain ⟨_, s₂, hcheck, hrun⟩ := Exec.bind_eq_ok.1 hrun
      obtain ⟨rfl, rfl⟩ := kernelAssert_ok hcheck
      have hw : ¬ SamePage (va48PcieCfgStart + 2 ^ 28 * k + 4096 * i) directVadd := by
        rw [hstart, hwin]
        unfold SamePage pageSize4K
        omega
      have hpa : IsPage (g + 4096 * i) := by unfold IsPage pageSize4K va48LowEnd; omega
      have hnext : u64 (va48PcieCfgStart + 2 ^ 28 * k + 4096 * i + pageSize4K) = va48PcieCfgStart + 2 ^ 28 * k +
          4096 * (i + 1) := by
        rw [hstart]
        unfold u64 pageSize4K
        omega
      rw [hnext, show u64 (g + 4096 * i + pageSize4K) = g + 4096 * (i + 1) by unfold u64 pageSize4K; omega] at hrun
      obtain ⟨hl₁, hok, -⟩ := h.map_laid (by rw [hstart]; omega) hw (hnone i le_rfl hi') hpa hmap
      obtain ⟨N, hm⟩ := hok rfl
      obtain ⟨hr, hl', hstrip⟩ := bootstrapPcieLoop_ok hal (by unfold va48LowEnd; omega) hk hl₁.reach hi' (fun j h1 h2 => by
        refine (hm.elsewhere _ fun hs => ?_).trans (hnone j (by omega) h2)
        rw [hstart] at hs
        unfold SamePage pageSize4K at hs
        omega) hrun
      refine ⟨hr, hl₁.trans hl', ?_⟩
      rw [show 65536 - i = 1 + (65536 - (i + 1)) by omega]
      refine (Strip.one (N := N) hm).append ?_ (by omega)
      rw [Nat.add_assoc, show 4096 * i + 4096 * 1 = 4096 * (i + 1) by omega]
      exact hstrip.congr fun j _ => by omega

/-- The groups one behind the other, from the `k`-th on. -/
theorem bootstrapPcieGroups_ok {n : Nat} : ∀ {groups : List Nat} {k : Nat} {s : PageState}, (∀ g ∈ groups, g % 2 ^ 28 = 0 ∧
    g + 2 ^ 28 ≤ va48LowEnd + 1) → k + groups.length ≤ 16 → Reach im s →
    (∀ m < 65536 * groups.length, lookup s.mem im.tab4 (va48PcieCfgStart + 2 ^ 28 * k + 4096 * m) = none) →
    bootstrapPcieGroups im n groups (va48PcieCfgStart + 2 ^ 28 * k) s = .ok () s' →
    Laid im s s' ∧ Strip im (va48PcieCfgStart + 2 ^ 28 * k) (pciePa groups) (65536 * groups.length) s s'
  | [], k, s, _, _, h, _, hrun => by
    cases hrun
    exact ⟨.refl h, .nil ..⟩
  | g :: groups, k, s, hg, hk, h, hnone, hrun => by
    have hstart : va48PcieCfgStart = 18446603336237973504 := rfl
    obtain ⟨hal, hle⟩ := hg g (List.mem_cons_self ..)
    rw [List.length_cons] at hk hnone ⊢
    rw [bootstrapPcieGroups] at hrun
    obtain ⟨va, s₁, hloop, hrest⟩ := Exec.bind_eq_ok.1 hrun
    have hend : u64 (g + dPcieGroupGetCfgLen) = g + 2 ^ 28 := by
      unfold va48LowEnd at hle
      unfold dPcieGroupGetCfgLen
      exact u64_of_lt (by omega)
    have hloop' : bootstrapPcieLoop im (g + 2 ^ 28) n (va48PcieCfgStart + 2 ^ 28 * k + 4096 * 0) (g + 4096 * 0) s = .ok va s₁ := by
      rw [← hend]
      exact hloop
    obtain ⟨rfl, hl₁, hstrip₁⟩ :=
      bootstrapPcieLoop_ok hal hle (by omega) (i := 0) h (by omega) (fun j _ hj => hnone j (by omega)) hloop'
    rw [Nat.mul_zero, Nat.add_zero, Nat.sub_zero] at hstrip₁
    obtain ⟨hl', hstrip⟩ :=
      bootstrapPcieGroups_ok (k := k + 1) (fun g' hg' => hg g' (List.mem_cons_of_mem _ hg')) (by omega) hl₁.reach
      (fun m hm => by
        have hpage : va48PcieCfgStart + 2 ^ 28 * (k + 1) + 4096 * m = va48PcieCfgStart + 2 ^ 28 * k + 4096 * (65536 + m) := by omega
        rw [hpage]
        refine (hstrip₁.elsewhere _ fun i hi hs => ?_).trans (hnone _ (by omega))
        rw [hstart] at hs
        unfold SamePage pageSize4K at hs
        omega) hrest
    refine ⟨hl₁.trans hl', ?_⟩
    rw [show 65536 * (groups.length + 1) = 65536 + 65536 * groups.length by omega]
    refine (hstrip₁.congr fun i hi => ?_).append ?_ (by omega)
    · unfold pciePa
      rw [Nat.div_eq_of_lt hi, Nat.mod_eq_of_lt hi, List.getD_cons_zero, Nat.zero_add]
    · rw [show va48PcieCfgStart + 2 ^ 28 * k + 4096 * 65536 = va48PcieCfgStart + 2 ^ 28 * (k + 1) by omega]
      refine hstrip.congr fun i _ => ?_
      unfold pciePa
      rw [Nat.add_mod_left, Nat.add_div_left _ (by omega), List.getD_cons_succ]

/-- With a group there is no room for more than 15M of frame buffer: its pages are taken. -/
theorem bootstrapPcieGroups_taken {n g : Nat} {groups : List Nat} {l : Leaf} (h : Reach im s) (hg : g % 2 ^ 28 = 0)
    (hle : g + 2 ^ 28 ≤ va48LowEnd + 1) (hl : lookup s.mem im.tab4 va48PcieCfgStart = some l) (hh : l.huge = false) :
    bootstrapPcieGroups im n (g :: groups) va48PcieCfgStart s ≠ .ok () s' := by
  intro hrun
  rw [bootstrapPcieGroups] at hrun
  obtain ⟨va, s₁, hloop, -⟩ := Exec.bind_eq_ok.1 hrun
  rw [u64_of_lt (show g + dPcieGroupGetCfgLen < 2 ^ 64 by unfold va48LowEnd at hle; unfold dPcieGroupGetCfgLen; omega)] at hloop
  cases n with
  | zero => cases hloop
  | succ n =>
    rw [bootstrapPcieLoop, if_pos (show g < g + dPcieGroupGetCfgLen by unfold dPcieGroupGetCfgLen; omega)] at hloop
    obtain ⟨_, s₂, hbound, hrest⟩ := Exec.bind_eq_ok.1 hloop
    obtain ⟨-, rfl⟩ := kernelAssert_ok hbound
    obtain ⟨ok, s₃, hmap, hrest⟩ := Exec.bind_eq_ok.1 hrest
    obtain ⟨_, s₄, hcheck, -⟩ := Exec.bind_eq_ok.1 hrest
    obtain ⟨rfl, rfl⟩ := kernelAssert_ok hcheck
    exact h.taken rfl hl hh (by omega) hmap

/-! ## The stack -/

/-- The frame of a page in front of others. -/
def withFrame (f : Nat) (frame : Nat → Nat) : Nat → Nat
  | 0 => f
  | j + 1 => frame j

theorem withFrame_inj {f : Nat} {frame : Nat → Nat} {m : Nat} (hnot : ∀ j < m, frame j ≠ f)
    (hinj : ∀ j < m, ∀ j' < m, frame j = frame j' → j = j') :
    ∀ j < 1 + m, ∀ j' < 1 + m, withFrame f frame j = withFrame f frame j' → j = j' := by
  intro j hj j' hj' he
  cases j with
  | zero =>
    cases j' with
    | zero => rfl
    | succ j' => exact absurd he.symm (hnot j' (by omega))
  | succ j =>
    cases j' with
    | zero => exact absurd he (hnot j (by omega))
    | succ j' => exact congrArg Nat.succ (hinj j (by omega) j' (by omega) he)

/-- Without a frame on the list the loop returns only at its end. -/
theorem bootstrapStackLoop_empty {n i : Nat} (h : Reach im s) (hempty : ∀ f, ¬ OnFreeList s f) (hi : i ≤ 254)
    (hrun : bootstrapStackLoop im n (va48StackTop + 4096 * i) s = .ok () s') : i = 254 ∧ s' = s := by
  have htop : va48StackTop = 18446603336221200384 := rfl
  have hbottom : va48StackBottom = 18446603336222236672 := rfl
  cases n with
  | zero => cases hrun
  | succ n =>
    rw [bootstrapStackLoop] at hrun
    split at hrun
    · obtain ⟨r, s₁, halloc, hrest⟩ := Exec.bind_eq_ok.1 hrun
      obtain ⟨_, s₂, hcheck, -⟩ := Exec.bind_eq_ok.1 hrest
      obtain ⟨hsome, -⟩ := kernelAssert_ok hcheck
      obtain ⟨f, rfl⟩ := Option.isSome_iff_exists.1 hsome
      exact absurd (h.alloc_laid halloc).2.1 (hempty f)
    · case isFalse hlt =>
      rw [htop, hbottom] at hlt
      cases hrun
      exact ⟨by omega, rfl⟩

/-- The stack from page `i` on: each page has a frame of its own from the list. The last page has none if there was none
left for `mm_page_map`. -/
theorem bootstrapStackLoop_ok : ∀ {n i : Nat} {s : PageState}, Reach im s → i ≤ 254 →
    (∀ j, i ≤ j → j < 254 → lookup s.mem im.tab4 (va48StackTop + 4096 * j) = none) →
    bootstrapStackLoop im n (va48StackTop + 4096 * i) s = .ok () s' →
    ∃ frame m, (m = 254 - i ∨ m + 1 = 254 - i ∧ ∀ f, ¬ OnFreeList s' f) ∧ Laid im s s' ∧
      Strip im (va48StackTop + 4096 * i) frame m s s' ∧ (∀ j < m, OnFreeList s (frame j) ∧ NotInUse im s' (frame j)) ∧
      ∀ j < m, ∀ j' < m, frame j = frame j' → j = j'
  | 0, _, _, _, _, _, hrun => by cases hrun
  | n + 1, i, s, h, hi, hnone, hrun => by
    have htop : va48StackTop = 18446603336221200384 := rfl
    have hbottom : va48StackBottom = 18446603336222236672 := rfl
    have hwin : directVadd = 18446603340532940800 := rfl
    rw [bootstrapStackLoop] at hrun
    split at hrun
    case isFalse hlt =>
      rw [htop, hbottom] at hlt
      obtain rfl : i = 254 := by omega
      cases hrun
      exact ⟨fun _ => 0, 0, .inl rfl, .refl h, .nil .., nofun, nofun⟩
    case isTrue hlt =>
      rw [htop, hbottom] at hlt
      have hi' : i < 254 := by omega
      obtain ⟨r, s₁, halloc, hrun⟩ := Exec.bind_eq_ok.1 hrun
      obtain ⟨_, s₁', hcheck, hrest⟩ := Exec.bind_eq_ok.1 hrun
      obtain ⟨hsome, rfl⟩ := kernelAssert_ok hcheck
      obtain ⟨f, rfl⟩ := Option.isSome_iff_exists.1 hsome
      obtain ⟨ok, s₂, hmap, hrest⟩ := Exec.bind_eq_ok.1 hrest
      obtain ⟨hl₁, hfree, huse, hpage, hmem, hgone⟩ := h.alloc_laid halloc
      have hw : ¬ SamePage (va48StackTop + 4096 * i) directVadd := by
        rw [htop, hwin]
        unfold SamePage pageSize4K
        omega
      have hnone₁ : lookup s₁'.mem im.tab4 (va48StackTop + 4096 * i) = none := by
        rw [hmem]
        exact hnone i le_rfl hi'
      obtain ⟨hl₂, hok, hfail⟩ := hl₁.reach.map_laid (by rw [htop]; omega) hw hnone₁ hpage hmap
      rw [show u64 (va48StackTop + 4096 * i + pageSize4K) = va48StackTop + 4096 * (i + 1) by
        rw [htop]; unfold u64 pageSize4K; omega] at hrest
      cases ok with
      | true =>
        obtain ⟨N, hm⟩ := hok rfl
        obtain ⟨frame, m, hcount, hl₃, hstrip, hframes, hinj⟩ := bootstrapStackLoop_ok hl₂.reach hi' (fun j h1 h2 => by
          refine (hm.elsewhere _ fun hs => ?_).trans ((congrArg (lookup · im.tab4 _) hmem).trans (hnone j (by omega) h2))
          rw [htop] at hs
          unfold SamePage pageSize4K at hs
          omega) hrest
        have hnot : ∀ j < m, frame j ≠ f := fun j hj e => hgone (hl₂.free f (e ▸ (hframes j hj).1))
        refine ⟨withFrame f frame, 1 + m, ?_, hl₁.trans (hl₂.trans hl₃), ?_, fun j hj => ?_, withFrame_inj hnot hinj⟩
        · rcases hcount with rfl | ⟨hm1, hempty⟩
          · exact .inl (by omega)
          · exact .inr ⟨by omega, hempty⟩
        · have hone : Strip im (va48StackTop + 4096 * i) (withFrame f frame) 1 s₁' s₂ := .one (N := N) hm
          have hm254 : m ≤ 254 := by omega
          refine Strip.append ⟨hone.here, fun va' hs => (hone.elsewhere va' hs).trans (congrArg (lookup · im.tab4 va') hmem)⟩ ?_ (by
            omega)
          rw [Nat.add_assoc, show 4096 * i + 4096 * 1 = 4096 * (i + 1) by omega]
          refine hstrip.congr fun j _ => ?_
          rw [Nat.add_comm]
          rfl
        · cases j with
          | zero => exact ⟨hfree, hl₃.inUse f (hl₂.inUse f huse)⟩
          | succ j =>
            obtain ⟨h1, h2⟩ := hframes j (by omega)
            exact ⟨hl₁.free _ (hl₂.free _ h1), h2⟩
      | false =>
        obtain ⟨hempty, hlook⟩ := hfail rfl
        obtain ⟨hlast, rfl⟩ := bootstrapStackLoop_empty hl₂.reach hempty hi' hrest
        refine ⟨fun _ => 0, 0, .inr ⟨by omega, hempty⟩, hl₁.trans hl₂, ⟨nofun, fun va' _ => ?_⟩, nofun, nofun⟩
        rw [hlook va', hmem]

/-! ## The copy -/

/-- The copy of words between pages of which the second is in use. -/
theorem mmCopyWords_run {dest src a b : Nat} (h : Reach im s) : ∀ {n : Nat},
    (∀ i < n, translate s.mem im.tab4 (src + 8 * i) = some (a + 8 * i)) →
    (∀ i < n, translate s.mem im.tab4 (dest + 8 * i) = some (b + 8 * i)) →
    (∀ i < n, (∀ t, IsTable im s t → b + 8 * i < t ∨ t + 4096 ≤ b + 8 * i) ∧ ¬ OnFreeList s (b + 8 * i)) →
    (∀ i < n, ∀ j < n, a + 8 * i ≠ b + 8 * j) →
    ∃ s', mmCopyWords im dest src n s = .ok () s' ∧ Laid im s s' ∧ (∀ va, lookup s'.mem im.tab4 va = lookup s.mem im.tab4 va) ∧
      (∀ t, IsTable im s' t ↔ IsTable im s t) ∧ (∀ i < n, s'.mem (b + 8 * i) = s.mem (a + 8 * i)) ∧
      ∀ x, (∀ i < n, x ≠ b + 8 * i) → s'.mem x = s.mem x
  | 0, _, _, _, _ => ⟨s, rfl, .refl h, fun _ => rfl, fun _ => .rfl, nofun, fun _ _ => rfl⟩
  | n + 1, hsrc, hdest, hb, hne => by
    obtain ⟨s₁, hrun, hl, hlook, htab, hcopy, hsame⟩ := mmCopyWords_run h (n := n) (fun i hi => hsrc i (by omega))
      (fun i hi => hdest i (by omega)) (fun i hi => hb i (by omega)) fun i hi j hj => hne i (by omega) j (by omega)
    have htr : ∀ va, translate s₁.mem im.tab4 va = translate s.mem im.tab4 va := by
      intro va
      unfold translate
      rw [hlook va]
    obtain ⟨hb1, hb2⟩ := hb n (by omega)
    have hno : ∀ t, IsTable im s₁ t → b + 8 * n < t ∨ t + 4096 ≤ b + 8 * n := fun t ht => hb1 t ((htab t).1 ht)
    have hfree : ¬ OnFreeList s₁ (b + 8 * n) := fun hf => hb2 (hl.free _ hf)
    obtain ⟨F, hinv⟩ := hl.reach.inv
    obtain ⟨hinv', hnode, hlook'⟩ := hinv.after_write (s.mem (a + 8 * n)) hno hfree
    have hsrcn : s₁.mem (a + 8 * n) = s.mem (a + 8 * n) := hsame _ fun i hi => hne n (by omega) i (by omega)
    have hread := readVa_run ((htr _).trans (hsrc n (by omega)))
    rw [hsrcn] at hread
    have hwrite := writeVa_run (s.mem (a + 8 * n)) ((htr _).trans (hdest n (by omega)))
    have htab' : ∀ t, IsTable im (withWord s₁ (b + 8 * n) (s.mem (a + 8 * n))) t ↔ IsTable im s₁ t := fun t =>
      exists_congr fun q => by rw [hnode q]
    refine ⟨withWord s₁ (b + 8 * n) (s.mem (a + 8 * n)), ?_, hl.trans ⟨.write hl.reach hno hfree, fun f hf => ?_, fun f hf => ?_⟩,
      fun va => (hlook' va).trans (hlook va), fun t => (htab' t).trans (htab t), fun i hi => ?_, fun x hx => ?_⟩
    · rw [mmCopyWords, Exec.bind_ok hrun, Exec.bind_ok hread, hwrite]
      rfl
    · exact hinv.onFreeList.2 (hinv'.onFreeList.1 hf)
    · have hu := hinv.unused hf
      exact Unused.notInUse ⟨hu.frame, hu.notFree, fun q hq => hu.notTable q ((hnode q).symm.trans hq)⟩ hinv'
    · by_cases hin : i = n
      · rw [hin]
        exact withWord_self _ _ _
      · refine (Function.update_of_ne (by omega) _ _).trans (hcopy i (by omega))
    · exact (Function.update_of_ne (hx n (by omega)) _ _).trans (hsame x fun i hi => hx i (by omega))

/-! ## Below the higher half -/

/-- The identity map once the loop of `mm_page_bootstrap` is at `u`: without the pages above the kernel, other than those of
config spaces. -/
def Low (im : Image) (mach : Machine) (e u : Nat) (s : PageState) : Prop := ∀ va, page2M va < e → lookup s.mem im.tab4 va =
  if firstPage mach ≤ page2M va ∧ page2M va < u ∧ bootstrapPaInsidePcieCfgSpace mach (page2M va) = false then none
  else some ⟨page2M va, true, true⟩

section Low

variable {s₁ : PageState} {e u : Nat}

/-- A round. -/
theorem Unmapping.low (h : Unmapping im mach s₁ e u s F) (hr : Reach im s) (hlow : Low im mach e u s)
    (htab : ∀ t, IsTable im s₁ t → t < firstPage mach) (he : e ≤ 2 ^ 44) (hin : bootstrapPaInsidePcieCfgSpace mach u = true ∨ u < e)
    (hrun : bootstrapUnmapPage im mach u s = .ok () s') : Reach im s' ∧ Low im mach e (u + 2097152) s' := by
  have hal := h.align
  have hfirst := h.first
  have hpage : ∀ va, page2M va % 2097152 = 0 := fun va => by unfold page2M; omega
  unfold bootstrapUnmapPage at hrun
  cases hpcie : bootstrapPaInsidePcieCfgSpace mach u with
  | true =>
    rw [hpcie, if_pos rfl] at hrun
    cases hrun
    refine ⟨hr, fun va hva => (hlow va hva).trans (if_congr ?_ rfl rfl)⟩
    have := hpage va
    constructor
    · rintro ⟨h1, h2, h3⟩
      exact ⟨h1, by omega, h3⟩
    · rintro ⟨h1, h2, h3⟩
      have hne : page2M va ≠ u := by
        rintro rfl
        rw [hpcie] at h3
        cases h3
      exact ⟨h1, by omega, h3⟩
  | false =>
    have hu : u < e := by
      rw [hpcie] at hin
      exact hin.resolve_left (by decide)
    rw [hpcie, if_neg (by decide)] at hrun
    obtain ⟨pa, s₂, hunmap, hpure⟩ := Exec.bind_eq_ok.1 hrun
    cases hpure
    have hl := h.here u hal le_rfl hu
    have hunused : freeFrame mach u = true → ∀ f ∈ Leaf.frames ⟨u, true, true⟩, Unused im s F f := by
      intro _ f hf
      obtain ⟨k, hk, rfl⟩ := List.mem_map.1 hf
      exact h.unused htab hu he (List.mem_range.1 hk)
    obtain ⟨s₂, F₂, hfree, h₂, hsame, -⟩ := unmapFree_frames h.inv hl hal (by omega) hunused
    obtain ⟨s₃, R, hrun', -, hun⟩ := unmap_run h.inv hl hal hfree h₂ hsame
    have hrun' : unmap im u pageSize2M (freeFrame mach u) s = .ok u s₃ := hrun'
    rw [hunmap] at hrun'
    cases hrun'
    refine ⟨.unmap (l := ⟨u, true, true⟩) hr (by omega) hl hal
      (fun hf f hm => (hunused hf f hm).notInUse h.inv) hunmap, fun va hva => ?_⟩
    have hpath : Radix.path (key va) 3 = Radix.path (key u) 3 ↔ page2M va = u := by
      rw [path3_iff, show page2M u = u by unfold page2M; omega]
    by_cases hva' : page2M va = u
    · rw [hun.here va (hpath.2 hva'), if_pos (by rw [hva']; exact ⟨hfirst, by omega, hpcie⟩)]
    · rw [hun.elsewhere va fun hs => hva' (hpath.1 hs), hlow va hva]
      have := hpage va
      refine if_congr ⟨fun ⟨h1, h2, h3⟩ => ⟨h1, by omega, h3⟩, fun ⟨h1, h2, h3⟩ => ⟨h1, by omega, h3⟩⟩ rfl rfl

theorem bootstrapUnmapLoop_low (hpc : PciePlaced mach) (htab : ∀ t, IsTable im s₁ t → t < firstPage mach)
    (hal : e % 2097152 = 0) (he : e ≤ 2 ^ 44) (hfirst : firstPage mach < 2 ^ 47 + 2 ^ 31) {phyEnd : Nat} :
    ∀ {n u r : Nat} {s s' : PageState} {F : List Nat}, Unmapping im mach s₁ e u s F → Reach im s → Low im mach e u s →
    bootstrapUnmapLoop im mach phyEnd n u s = .ok r s' → (∃ F', Unmapping im mach s₁ e r s' F') ∧ Reach im s' ∧ Low im mach e r s'
  | 0, _, _, _, _, _, _, _, _, hrun => by cases hrun
  | n + 1, u, r, s, s', F, h, hr, hlow, hrun => by
    have hle := h.le hpc hal
    have hnext : u64 (u + pageSize2M) = u + 2097152 := by unfold u64 pageSize2M; omega
    rw [bootstrapUnmapLoop, hnext] at hrun
    split at hrun
    · obtain ⟨_, s₂, hpage, hrun⟩ := Exec.bind_eq_ok.1 hrun
      obtain ⟨hin, F', h'⟩ := h.page_ok hpc htab hal he hfirst hpage
      obtain ⟨hr', hlow'⟩ := h.low hr hlow htab he hin hpage
      exact bootstrapUnmapLoop_low hpc htab hal he hfirst h' hr' hlow' hrun
    · cases hrun
      exact ⟨⟨F, h⟩, hr, hlow⟩

/-- The part of `mm_page_bootstrap` up to the end of its loop. -/
theorem mmPageBootstrapUnmap_low (h : Identity im s e) (hk : KernelPlaced im mach) (hpc : PciePlaced mach) (hap : Apart im s)
    {n r : Nat} (hrun : mmPageBootstrapUnmap im mach n (frameBootstrapped s) = .ok r s') :
    ∃ s₁ F, Unmapping im mach s₁ e r s' F ∧ (∀ t, IsTable im s₁ t → t = im.tab4 ∨ (∃ i < 3, t = directTab im i) ∨
      ∃ k < earlyFrameCap, t = poolFrame im k) ∧ Reach im s' ∧ Low im mach e r s' := by
  obtain ⟨phyEnd, t, -, h3, hloop⟩ := mmPageBootstrapUnmap_cases hk hrun
  have harray := initDirectAccess_array h3
  obtain ⟨s₁, hinit, hun, htab⟩ := h.begin hk hap harray
  obtain rfl : s₁ = t := by
    rw [h3] at hinit
    cases hinit
    rfl
  have hstart : Start im s₁ := by
    obtain ⟨s₂, hinit, hstart⟩ := (h.early hk hap harray).start fun va l hl => by
      have hl' : lookup s.mem im.tab4 va = some l := hl
      by_cases hva : page2M va < e
      · rw [h.here va hva] at hl'
        cases hl'
        rfl
      · rw [h.above va (by omega)] at hl'
        cases hl'
    rw [h3] at hinit
    cases hinit
    exact hstart
  have hlow : Low im mach e (firstPage mach) s₁ := by
    obtain ⟨m, hinit, -, hlinked⟩ := initDirectAccess_run (h.early hk hap harray)
    rw [h3] at hinit
    cases hinit
    intro va hva
    refine (hlinked.lookup va).trans ((h.here va hva).trans (if_neg ?_).symm)
    omega
  obtain ⟨-, -, hfirst⟩ := firstPage_spec hk
  obtain ⟨⟨F, hun'⟩, hr', hlow'⟩ :=
    bootstrapUnmapLoop_low hpc (fun t ht => hk.table_lt h htab ht) h.align h.le hfirst hun (.start hstart)
    hlow hloop
  refine ⟨_, F, hun', fun t ht =>
    (htab t ht).imp_right (Or.imp_right fun ⟨_, k, hlt, he⟩ => ⟨k, hlt.trans_le h.count, he⟩), hr', hlow'⟩

end Low

/-! ## The layout -/

/-- The boot stack and the end of the part in use. -/
structure BootStack where
  top : Nat
  bottom : Nat
  position : Nat

/-- The part in use lies in the kernel image outside the tables and the pool, and holds whole words. -/
structure StackPlaced (im : Image) (mach : Machine) (st : BootStack) : Prop where
  align : st.position % 8 = 0
  kernel : st.bottom ≤ mach.kernelEnd
  tab4 : ∀ x, st.position ≤ x → x < st.bottom → x < im.tab4 ∨ im.tab4 + 4096 ≤ x
  direct : ∀ x, st.position ≤ x → x < st.bottom → ∀ i < 3, x < directTab im i ∨ directTab im i + 4096 ≤ x
  pool : ∀ x, st.position ≤ x → x < st.bottom → ∀ k < earlyFrameCap, x < poolFrame im k ∨ poolFrame im k + 4096 ≤ x

/-- The devices lie where an entry of a table can point to, and the frame buffer ends before the window. -/
structure DevicesPlaced (mach : Machine) : Prop where
  fb : mach.fb + mach.fbLen ≤ va48LowEnd + 1
  fbLen : mach.fbLen ≤ va48DirectAccessPage - va48FrameBuffer
  pcie : ∀ g ∈ mach.pcieCfg, g + 2 ^ 28 ≤ va48LowEnd + 1

/-- The boot up to the end of `mm_page_bootstrap`: it is through with the early stage in `s`, and with the rest in `s'`. -/
def Booted (im : Image) (mach : Machine) (st : BootStack) (s s' : PageState) : Prop :=
  ∃ garbage n n' e s₀ buf, s₀.isEarlyStage = true ∧ s₀.earlyFrameCount = 0 ∧ mmPageEarlyBootstrap im mach garbage n s₀ = .ok e s ∧
    (do mmFrameBootstrap; mmPageBootstrap im mach n' e st.top st.bottom st.position : PageM Nat) s = .ok buf s'

/-- The address space after boot, with the identity map of the early stage below `e` and the frames of the stack. -/
structure Layout (im : Image) (mach : Machine) (st : BootStack) (e : Nat) (frame : Nat → Nat) (s : PageState) : Prop where
  bound : firstPage mach ≤ e ∧ e ≤ 2 ^ 44
  low : ∀ va, page2M va < e → lookup s.mem im.tab4 va =
    if firstPage mach ≤ page2M va ∧ bootstrapPaInsidePcieCfgSpace mach (page2M va) = false then none else
      some ⟨page2M va, true, true⟩
  frameBuffer : ∀ i < fbPages mach, lookup s.mem im.tab4 (va48FrameBuffer + 4096 * i) = some ⟨mach.fb + 4096 * i, true, false⟩
  pcie : ∀ m < 65536 * mach.pcieCfg.length,
    lookup s.mem im.tab4 (va48PcieCfgStart + 4096 * m) = some ⟨pciePa mach.pcieCfg m, true, false⟩
  stack : ∀ i < 253, lookup s.mem im.tab4 (va48StackTop + 4096 * i) = some ⟨frame i, true, false⟩
  bottom : lookup s.mem im.tab4 va48StackBottom = some ⟨frame 253, true, false⟩ ∨
    lookup s.mem im.tab4 va48StackBottom = none ∧ ∀ f, ¬ OnFreeList s f
  frames : ∀ i < 254, lookup s.mem im.tab4 (va48StackTop + 4096 * i) ≠ none → NotInUse im s (frame i) ∧ ∀ j < i, frame i ≠ frame j
  copied : ∀ i < (st.bottom - st.position) / 8, ∃ v, readVa im (st.position + 8 * i) s = .ok v s ∧
    readVa im (va48StackBottom - (st.bottom - st.position) + 8 * i) s = .ok v s
  guards : lookup s.mem im.tab4 va48HighStart = none ∧ lookup s.mem im.tab4 va48StackBottomGuard = none
  free : ∀ f, OnFreeList s f → (∃ k < earlyFrameCap, f = poolFrame im k) ∨ UsableFrame mach f
  rest : ∀ va, e ≤ page2M va → (∀ i < fbPages mach, ¬ SamePage va (va48FrameBuffer + 4096 * i)) →
    (∀ m < 65536 * mach.pcieCfg.length, ¬ SamePage va (va48PcieCfgStart + 4096 * m)) →
    (∀ i < 254, ¬ SamePage va (va48StackTop + 4096 * i)) → lookup s.mem im.tab4 va = none

/-- The stages of the boot up to the stack. -/
structure Stages (im : Image) (mach : Machine) (n e : Nat) (s₁ s₂ s₃ : PageState) : Prop where
  unmapped : ∃ s₀ F, Unmapping im mach s₀ e e s₁ F ∧ ∀ t, IsTable im s₀ t → t = im.tab4 ∨ (∃ i < 3, t = directTab im i) ∨
    ∃ k < earlyFrameCap, t = poolFrame im k
  reach : Reach im s₁
  low : Low im mach e e s₁
  bound : e ≤ 2 ^ 44 ∧ firstPage mach ≤ e ∧ mach.kernelEnd < firstPage mach
  vesa : bootstrapVesaLoop im mach n 0 s₁ = .ok () s₂
  pcie : bootstrapPcieCfgSpace im mach n s₂ = .ok () s₃

theorem Booted.stages {st : BootStack} (h : Booted im mach st s s') (hk : KernelPlaced im mach) (hm : MachineOk mach)
    (hap : Apart im s) : ∃ n e s₁ s₂ s₃, Stages im mach n e s₁ s₂ s₃ ∧
    bootstrapStackMemory im n st.top st.bottom st.position s₃ = .ok () s' := by
  obtain ⟨garbage, n, n', e, s₀, buf, hstage, hcount, hearly, hrun⟩ := h
  have hid := mmPageEarlyBootstrap_ok hk.toEarlyPlaced hstage hcount hearly
  obtain ⟨_, t₁, hboot, hrun⟩ := Exec.bind_eq_ok.1 hrun
  have ht₁ : t₁ = frameBootstrapped s := by
    unfold mmFrameBootstrap at hboot
    rw [Exec.bind_ok (Exec.get_run s), Exec.bind_ok (kernelAssert_pos hid.stage _ s)] at hboot
    cases hboot
    rfl
  rw [ht₁] at hrun
  unfold mmPageBootstrap at hrun
  obtain ⟨page, s₁, hunmap, hrest⟩ := Exec.bind_eq_ok.1 hrun
  obtain ⟨_, t₂, hcheck, htail⟩ := Exec.bind_eq_ok.1 hrest
  obtain ⟨rfl, rfl⟩ := kernelAssert_ok hcheck
  obtain ⟨s₀', F, hun, htab, hreach, hlow⟩ := mmPageBootstrapUnmap_low hid hk hm.toPciePlaced hap hunmap
  obtain ⟨buf', s₂, hvesa, htail⟩ := Exec.bind_eq_ok.1 htail
  obtain ⟨_, s₃, hpcie, htail⟩ := Exec.bind_eq_ok.1 htail
  obtain ⟨_, s₄, hstack, hpure⟩ := Exec.bind_eq_ok.1 htail
  cases hpure
  unfold bootstrapVesaFrameBuffer at hvesa
  obtain ⟨_, t₃, hal, hrounds⟩ := Exec.bind_eq_ok.1 hvesa
  obtain ⟨-, rfl⟩ := kernelAssert_ok hal
  obtain ⟨_, t₄, hloop, hpure⟩ := Exec.bind_eq_ok.1 hrounds
  cases hpure
  exact ⟨n', _, _, _, _, ⟨⟨s₀', F, hun, htab⟩, hreach, hlow, ⟨hid.le, hun.first, (firstPage_spec hk).2.1⟩, hloop, hpcie⟩, hstack⟩

/-! ## The areas -/

/-- An address of the higher half is in no page of the identity map. -/
theorem not_samePage_low {e x : Nat} (he : e ≤ 2 ^ 44) (hx : va48HighStart ≤ x) (hx' : x < 2 ^ 64) (hva : page2M va < e) :
    ¬ SamePage va x := by
  unfold va48HighStart at hx
  unfold page2M at hva
  unfold SamePage pageSize4K
  omega

theorem page2M_high {x : Nat} (hx : va48HighStart ≤ x) (hx' : x < 2 ^ 64) : 2 ^ 44 ≤ page2M x := by
  unfold va48HighStart at hx
  unfold page2M
  omega

/-- The three areas of the higher half after the boot: the frame buffer, the config spaces and the stack. -/
structure Areas (im : Image) (mach : Machine) (frame : Nat → Nat) (m : Nat) (s₁ s₂ s₃ s₄ : PageState) : Prop where
  room : mach.pcieCfg = [] ∨ fbPages mach ≤ 3840
  fb : fbPages mach ≤ 1052416
  few : mach.pcieCfg.length ≤ 8
  vesa : Strip im va48FrameBuffer (fun i => mach.fb + 4096 * i) (fbPages mach) s₁ s₂
  pcie : Strip im va48PcieCfgStart (pciePa mach.pcieCfg) (65536 * mach.pcieCfg.length) s₂ s₃
  stack : Strip im va48StackTop frame m s₃ s₄
  pages : m = 254 ∨ m = 253 ∧ ∀ f, ¬ OnFreeList s₄ f
  laid : Laid im s₁ s₄
  frames : ∀ i < m, OnFreeList s₁ (frame i) ∧ NotInUse im s₄ (frame i)
  inj : ∀ i < m, ∀ j < m, frame i = frame j → i = j

/-- The areas in front of the stack, for which nothing is mapped yet. -/
theorem Stages.devices {n e : Nat} {s₁ s₂ s₃ : PageState} (h : Stages im mach n e s₁ s₂ s₃) (hm : MachineOk mach)
    (hdev : DevicesPlaced mach) : (mach.pcieCfg = [] ∨ fbPages mach ≤ 3840) ∧ fbPages mach ≤ 1052416 ∧
      Strip im va48FrameBuffer (fun i => mach.fb + 4096 * i) (fbPages mach) s₁ s₂ ∧
      Strip im va48PcieCfgStart (pciePa mach.pcieCfg) (65536 * mach.pcieCfg.length) s₂ s₃ ∧ Laid im s₁ s₃ ∧
      ∀ j < 254, lookup s₃.mem im.tab4 (va48StackTop + 4096 * j) = none := by
  have hfbs : va48FrameBuffer = 18446603336222244864 := rfl
  have hpcs : va48PcieCfgStart = 18446603336237973504 := rfl
  have htop : va48StackTop = 18446603336221200384 := rfl
  have hgap : va48DirectAccessPage - va48FrameBuffer = 4310695936 := rfl
  have hfew := hm.few
  have hlen := hdev.fbLen
  rw [hgap] at hlen
  have hfb : fbPages mach ≤ 1052416 := by unfold fbPages; omega
  obtain ⟨he, -, -⟩ := h.bound
  obtain ⟨s₀, F, hun, -⟩ := h.unmapped
  -- nothing is mapped in the higher half yet
  have hnone : ∀ x, va48HighStart ≤ x → x < 2 ^ 64 → lookup s₁.mem im.tab4 x = none := fun x h1 h2 =>
    hun.above x (he.trans (page2M_high h1 h2))
  unfold va48HighStart at hnone
  have hal : mach.fb % 4096 = 0 := by
    have := hm.fb_align
    unfold pageSize2M at this
    omega
  obtain ⟨hl₁, hvesa⟩ := bootstrapVesaLoop_ok hal hdev.fb (hgap ▸ hlen) (i := 0) h.reach (Nat.zero_le _)
    (fun j _ hj => hnone _ (by rw [hfbs]; omega) (by rw [hfbs]; omega)) h.vesa
  rw [Nat.mul_zero, Nat.add_zero, Nat.sub_zero] at hvesa
  have hvesa : Strip im va48FrameBuffer (fun i => mach.fb + 4096 * i) (fbPages mach) s₁ s₂ := hvesa.congr fun i _ => by
    rw [Nat.zero_add]
  have hgroups : ∀ g ∈ mach.pcieCfg, g % 2 ^ 28 = 0 ∧ g + 2 ^ 28 ≤ va48LowEnd + 1 := fun g hg => ⟨hm.align g hg, hdev.pcie g hg⟩
  have hpcie := h.pcie
  unfold bootstrapPcieCfgSpace at hpcie
  have hroom : mach.pcieCfg = [] ∨ fbPages mach ≤ 3840 := by
    by_contra hno
    rw [not_or] at hno
    obtain ⟨g, groups, hcfg⟩ := List.exists_cons_of_ne_nil hno.1
    rw [hcfg] at hpcie hgroups
    obtain ⟨h1, h2⟩ := hgroups g (List.mem_cons_self ..)
    have htaken := hvesa.here 3840 (by omega) va48PcieCfgStart (by rw [hfbs, hpcs]; rfl)
    exact bootstrapPcieGroups_taken hl₁.reach h1 h2 htaken rfl hpcie
  obtain ⟨hl₂, hpc⟩ := bootstrapPcieGroups_ok (k := 0) hgroups (by omega) hl₁.reach (fun m hm => by
    refine (hvesa.elsewhere _ fun i hi hs => ?_).trans (hnone _ (by rw [hpcs]; omega) (by rw [hpcs]; omega))
    rcases hroom with hnil | hroom
    · rw [hnil] at hm
      cases hm
    · rw [hfbs, hpcs] at hs
      unfold SamePage pageSize4K at hs
      omega) hpcie
  rw [Nat.mul_zero, Nat.add_zero] at hpc
  refine ⟨hroom, hfb, hvesa, hpc, hl₁.trans hl₂, fun j hj => ?_⟩
  refine (hpc.elsewhere _ fun i hi hs => ?_).trans ((hvesa.elsewhere _ fun i hi hs => ?_).trans
    (hnone _ (by rw [htop]; omega) (by rw [htop]; omega)))
  · rw [htop, hpcs] at hs
    unfold SamePage pageSize4K at hs
    omega
  · rw [htop, hfbs] at hs
    unfold SamePage pageSize4K at hs
    omega

theorem Stages.areas {n e : Nat} {s₁ s₂ s₃ s₄ : PageState} (h : Stages im mach n e s₁ s₂ s₃) (hm : MachineOk mach)
    (hdev : DevicesPlaced mach) (hloop : bootstrapStackLoop im n va48StackTop s₃ = .ok () s₄) :
    ∃ frame m, Areas im mach frame m s₁ s₂ s₃ s₄ := by
  obtain ⟨hroom, hfb, hvesa, hpc, hl, hnone⟩ := h.devices hm hdev
  obtain ⟨frame, m, hcount, hl₃, hstk, hframes, hinj⟩ := bootstrapStackLoop_ok (i := 0) hl.reach (by omega)
    (fun j _ hj => hnone j hj) hloop
  rw [Nat.mul_zero, Nat.add_zero] at hstk
  refine ⟨frame, m, hroom, hfb, hm.few, hvesa, hpc, hstk, hcount.imp id fun ⟨h1, h2⟩ => ⟨by omega, h2⟩, hl.trans hl₃,
    fun i hi => ?_, hinj⟩
  obtain ⟨h1, h2⟩ := hframes i hi
  exact ⟨hl.free _ h1, h2⟩

section Areas

variable {frame : Nat → Nat} {m : Nat} {s₁ s₂ s₃ s₄ : PageState}

/-- The pages of the stack and of the config spaces are others than those of the frame buffer, and than each other. -/
theorem Areas.elsewhere (h : Areas im mach frame m s₁ s₂ s₃ s₄)
    (hfb : ∀ i < fbPages mach, ¬ SamePage va (va48FrameBuffer + 4096 * i))
    (hpc : ∀ i < 65536 * mach.pcieCfg.length, ¬ SamePage va (va48PcieCfgStart + 4096 * i))
    (hst : ∀ i < m, ¬ SamePage va (va48StackTop + 4096 * i)) : lookup s₄.mem im.tab4 va = lookup s₁.mem im.tab4 va :=
  (h.stack.elsewhere va hst).trans ((h.pcie.elsewhere va hpc).trans (h.vesa.elsewhere va hfb))

theorem Areas.le (h : Areas im mach frame m s₁ s₂ s₃ s₄) : m ≤ 254 ∧ 253 ≤ m := by
  rcases h.pages with hm | ⟨hm, -⟩ <;> omega

theorem Areas.lookup_vesa (h : Areas im mach frame m s₁ s₂ s₃ s₄) {i : Nat} (hi : i < fbPages mach) :
    lookup s₄.mem im.tab4 (va48FrameBuffer + 4096 * i) = some ⟨mach.fb + 4096 * i, true, false⟩ := by
  have hfbs : va48FrameBuffer = 18446603336222244864 := rfl
  have hpcs : va48PcieCfgStart = 18446603336237973504 := rfl
  have htop : va48StackTop = 18446603336221200384 := rfl
  have hfb := h.fb
  have hm := h.le
  refine (h.stack.elsewhere _ fun j hj hs => ?_).trans ((h.pcie.elsewhere _ fun j hj hs => ?_).trans (h.vesa.here i hi _ rfl))
  · rw [htop, hfbs] at hs
    unfold SamePage pageSize4K at hs
    omega
  · rcases h.room with hnil | hroom
    · rw [hnil] at hj
      cases hj
    · have hfew := h.few
      rw [hpcs, hfbs] at hs
      unfold SamePage pageSize4K at hs
      omega

theorem Areas.lookup_pcie (h : Areas im mach frame m s₁ s₂ s₃ s₄) {i : Nat} (hi : i < 65536 * mach.pcieCfg.length) :
    lookup s₄.mem im.tab4 (va48PcieCfgStart + 4096 * i) = some ⟨pciePa mach.pcieCfg i, true, false⟩ := by
  have hpcs : va48PcieCfgStart = 18446603336237973504 := rfl
  have htop : va48StackTop = 18446603336221200384 := rfl
  have hm := h.le
  have hfew := h.few
  refine (h.stack.elsewhere _ fun j hj hs => ?_).trans (h.pcie.here i hi _ rfl)
  rw [htop, hpcs] at hs
  unfold SamePage pageSize4K at hs
  omega

/-- The pages of the stack are none of the frame buffer and of the config spaces. -/
theorem Areas.stack_apart (h : Areas im mach frame m s₁ s₂ s₃ s₄) {j : Nat} (hj : j < 256) :
    (∀ i < fbPages mach, ¬ SamePage (va48HighStart + 4096 * j) (va48FrameBuffer + 4096 * i)) ∧
      ∀ i < 65536 * mach.pcieCfg.length, ¬ SamePage (va48HighStart + 4096 * j) (va48PcieCfgStart + 4096 * i) := by
  have hhigh : va48HighStart = 18446603336221196288 := rfl
  have hfbs : va48FrameBuffer = 18446603336222244864 := rfl
  have hpcs : va48PcieCfgStart = 18446603336237973504 := rfl
  have hfb := h.fb
  have hfew := h.few
  refine ⟨fun i hi hs => ?_, fun i hi hs => ?_⟩
  · rw [hhigh, hfbs] at hs
    unfold SamePage pageSize4K at hs
    omega
  · rw [hhigh, hpcs] at hs
    unfold SamePage pageSize4K at hs
    omega

/-- A page in front of the frame buffer that is none of the stack. -/
theorem Areas.lookup_guard (h : Areas im mach frame m s₁ s₂ s₃ s₄) {j : Nat} (hj : j < 256) (hst : ∀ i < m, i + 1 ≠ j)
    (hnone : lookup s₁.mem im.tab4 (va48HighStart + 4096 * j) = none) :
    lookup s₄.mem im.tab4 (va48HighStart + 4096 * j) = none := by
  have hhigh : va48HighStart = 18446603336221196288 := rfl
  have htop : va48StackTop = 18446603336221200384 := rfl
  have hm := h.le
  obtain ⟨h1, h2⟩ := h.stack_apart hj
  refine (h.elsewhere h1 h2 fun i hi hs => hst i hi ?_).trans hnone
  rw [hhigh, htop] at hs
  unfold SamePage pageSize4K at hs
  omega

/-- The identity map is as it was. -/
theorem Areas.lookup_low {e : Nat} (h : Areas im mach frame m s₁ s₂ s₃ s₄) (he : e ≤ 2 ^ 44) (hva : page2M va < e) :
    lookup s₄.mem im.tab4 va = lookup s₁.mem im.tab4 va := by
  have hhigh : va48HighStart = 18446603336221196288 := rfl
  have hfbs : va48FrameBuffer = 18446603336222244864 := rfl
  have hpcs : va48PcieCfgStart = 18446603336237973504 := rfl
  have htop : va48StackTop = 18446603336221200384 := rfl
  have hfb := h.fb
  have hfew := h.few
  have hm := h.le
  exact h.elsewhere (fun i hi => not_samePage_low he (by rw [hhigh, hfbs]; omega) (by rw [hfbs]; omega) hva)
    (fun i hi => not_samePage_low he (by rw [hhigh, hpcs]; omega) (by rw [hpcs]; omega) hva)
    fun i hi => not_samePage_low he (by rw [hhigh, htop]; omega) (by rw [htop]; omega) hva

end Areas

/-! ## The new stack -/

/-- The boot stack is none of the pages that become the new one. -/
theorem Stages.boot_stack_apart {st : BootStack} {n e f x : Nat} {s₁ s₂ s₃ : PageState} (h : Stages im mach n e s₁ s₂ s₃)
    (hst : StackPlaced im mach st) (hf : OnFreeList s₁ f) (h1 : st.position ≤ x) (h2 : x < st.bottom) : x < f ∨ f + 4096 ≤ x := by
  obtain ⟨s₀, F, hun, htab⟩ := h.unmapped
  rcases hun.free f (hun.inv.onFreeList.1 hf) with ht | ⟨p, hp, k, -, rfl⟩
  · rcases htab f ht with rfl | ⟨i, hi, rfl⟩ | ⟨k, hk, rfl⟩
    · exact hst.tab4 x h1 h2
    · exact hst.direct x h1 h2 i hi
    · exact hst.pool x h1 h2 k hk
  · have h3 := hp.first
    have h4 := hst.kernel
    have h5 := h.bound.2.2
    omega

/-- What the assertions of `_bootstrap_stack_memory` say. -/
structure StackChecked (st : BootStack) : Prop where
  bottom : st.bottom % 4096 = 0
  top : st.top % 4096 = 0
  above : st.top < st.position
  below : st.position < st.bottom
  len : st.bottom - st.position < 4096

/-- `_bootstrap_stack_memory` behind its loop. -/
theorem bootstrapStackMemory_eq {st : BootStack} {n : Nat} {s₃ s₄ : PageState} (hb : st.bottom < 2 ^ 64)
    (hloop : bootstrapStackLoop im n va48StackTop s₃ = .ok () s₄) :
    bootstrapStackMemory im n st.top st.bottom st.position s₃ = .ok () s' ↔ StackChecked st ∧
      mmCopyWords im (va48StackBottom - (st.bottom - st.position)) st.position ((st.bottom - st.position) / 8) s₄ = .ok () s' := by
  have hbottom : va48StackBottom = 18446603336222236672 := rfl
  have hsub : st.position < st.bottom → u64Sub st.bottom st.position = st.bottom - st.position :=
    fun hlt => u64Sub_of_le (by omega) hb
  have hsub' : st.bottom - st.position < 4096 →
      u64Sub va48StackBottom (st.bottom - st.position) = va48StackBottom - (st.bottom - st.position) := fun hlt => by
    rw [hbottom]
    exact u64Sub_of_le (by omega) (by omega)
  unfold bootstrapStackMemory
  rw [Exec.bind_ok hloop]
  constructor
  · intro hstack
    obtain ⟨_, t₁, hc1, hrest₁⟩ := Exec.bind_eq_ok.1 hstack
    obtain ⟨_, t₂, hc2, hrest₂⟩ := Exec.bind_eq_ok.1 hrest₁
    obtain ⟨_, t₃, hc3, hrest₃⟩ := Exec.bind_eq_ok.1 hrest₂
    obtain ⟨_, t₄, hc4, hrest₄⟩ := Exec.bind_eq_ok.1 hrest₃
    obtain ⟨_, t₅, hc5, hcopy⟩ := Exec.bind_eq_ok.1 hrest₄
    obtain ⟨h1, rfl⟩ := kernelAssert_ok hc1
    obtain ⟨h2, rfl⟩ := kernelAssert_ok hc2
    obtain ⟨h3, rfl⟩ := kernelAssert_ok hc3
    obtain ⟨h4, rfl⟩ := kernelAssert_ok hc4
    obtain ⟨h5, rfl⟩ := kernelAssert_ok hc5
    rw [hsub h4] at h5 hcopy
    rw [hsub' h5] at hcopy
    exact ⟨⟨mmAlignCheck_iff.1 h1, mmAlignCheck_iff.1 h2, h3, h4, h5⟩, hcopy⟩
  · rintro ⟨hc, hcopy⟩
    have h1 : mmAlignCheck st.bottom pageSize4K = true := mmAlignCheck_iff.2 hc.bottom
    have h2 : mmAlignCheck st.top pageSize4K = true := mmAlignCheck_iff.2 hc.top
    have hlen : u64Sub st.bottom st.position < pageSize4K := (hsub hc.below).trans_lt hc.len
    rw [Exec.bind_ok (kernelAssert_pos h1 _ _), Exec.bind_ok (kernelAssert_pos h2 _ _),
      Exec.bind_ok (kernelAssert_pos hc.above _ _),
      Exec.bind_ok (kernelAssert_pos hc.below _ _), Exec.bind_ok (kernelAssert_pos hlen _ _), hsub hc.below, hsub' hc.len]
    exact hcopy

/-- The words on the boot stack are copied to the new one. -/
theorem Stages.copied {st : BootStack} {n e m : Nat} {frame : Nat → Nat} {s₁ s₂ s₃ s₄ : PageState} (h : Stages im mach n e s₁ s₂ s₃)
    (hst : StackPlaced im mach st) (ha : Areas im mach frame m s₁ s₂ s₃ s₄) (hc : StackChecked st) : ∃ s',
      mmCopyWords im (va48StackBottom - (st.bottom - st.position)) st.position ((st.bottom - st.position) / 8) s₄ = .ok () s' ∧
      Laid im s₄ s' ∧ (∀ va, lookup s'.mem im.tab4 va = lookup s₄.mem im.tab4 va) ∧ ∀ i < (st.bottom - st.position) / 8, ∃ v,
      readVa im (st.position + 8 * i) s' = .ok v s' ∧
        readVa im (va48StackBottom - (st.bottom - st.position) + 8 * i) s' = .ok v s' := by
  have htop : va48StackTop = 18446603336221200384 := rfl
  have hbottom : va48StackBottom = 18446603336222236672 := rfl
  obtain ⟨he, hfe, hke⟩ := h.bound
  have hkern := hst.kernel
  have hle := ha.le
  have hpos8 := hst.align
  have hal := hc.bottom
  have hlt := hc.below
  have hlen := hc.len
  have hkb : st.bottom < 2 ^ 45 := by omega
  obtain ⟨F₄, hinv₄⟩ := ha.laid.reach.inv
  obtain ⟨hfree, huse⟩ := ha.frames 252 (by omega)
  have hu := hinv₄.unused huse
  have hframe := hu.frame.align
  -- the words on the boot stack lie where the identity map says
  have hsrc : ∀ i < (st.bottom - st.position) / 8, translate s₄.mem im.tab4 (st.position + 8 * i) = some (st.position + 8 * i) := by
    intro i hi
    have hpage : page2M (st.position + 8 * i) < firstPage mach := by unfold page2M; omega
    have hl := (ha.lookup_low he (by omega)).trans ((h.low (st.position + 8 * i) (by omega)).trans (if_neg (by omega)))
    unfold translate
    rw [hl, Option.map_some, if_pos rfl]
    unfold page2M pageSize2M
    refine congrArg some ?_
    show (st.position + 8 * i) % 2 ^ 48 / 2097152 * 2097152 + (st.position + 8 * i) % (2 * 1024 * 1024) = _
    omega
  -- and their copies in the last page below the bottom
  have hdest : ∀ i < (st.bottom - st.position) / 8, translate s₄.mem im.tab4 (va48StackBottom - (st.bottom - st.position) + 8 * i) =
      some (frame 252 + (4096 - (st.bottom - st.position)) + 8 * i) := by
    intro i hi
    have hl := ha.stack.here 252 (by omega) (va48StackBottom - (st.bottom - st.position) + 8 * i) (by
      rw [htop, hbottom]
      unfold SamePage pageSize4K
      omega)
    unfold translate
    rw [hl]
    refine congrArg some ?_
    show frame 252 + (va48StackBottom - (st.bottom - st.position) + 8 * i) % pageSize4K = _
    rw [hbottom]
    unfold pageSize4K
    omega
  have hne : ∀ i < (st.bottom - st.position) / 8, ∀ j < (st.bottom - st.position) / 8,
      st.position + 8 * i ≠ frame 252 + (4096 - (st.bottom - st.position)) + 8 * j := by
    intro i hi j hj he
    have := h.boot_stack_apart hst hfree (x := st.position + 8 * i) (by omega) (by omega)
    omega
  obtain ⟨s₅, hrun, hl, hlook, -, hwords, hsame⟩ := mmCopyWords_run ha.laid.reach hsrc hdest
    (fun i hi => hu.word hinv₄ (by omega) (by omega)) hne
  have htr : ∀ va, translate s₅.mem im.tab4 va = translate s₄.mem im.tab4 va := by
    intro va
    unfold translate
    rw [hlook va]
  refine ⟨s₅, hrun, hl, hlook, fun i hi => ⟨s₄.mem (st.position + 8 * i), ?_, ?_⟩⟩
  · rw [readVa_run ((htr _).trans (hsrc i hi)), hsame _ fun j hj => hne i hi j hj]
  · rw [readVa_run ((htr _).trans (hdest i hi)), hwords i hi]

/-! ## After the boot -/

/-- What is on the list before anything is mapped. -/
theorem Stages.free {n e f : Nat} {s₁ s₂ s₃ : PageState} (h : Stages im mach n e s₁ s₂ s₃) (hm : MachineOk mach)
    (hf : OnFreeList s₁ f) : (∃ k < earlyFrameCap, f = poolFrame im k) ∨ UsableFrame mach f := by
  obtain ⟨s₀, F, hun, htab⟩ := h.unmapped
  have he := h.bound.1
  have hmem := hun.inv.onFreeList.1 hf
  have hnot : ¬ IsTable im s₁ f := fun ⟨q, hq⟩ => hun.inv.notTable f hmem q hq
  rcases hun.free f hmem with ht | ⟨p, hp, k, hk, rfl⟩
  · rcases htab f ht with rfl | ⟨i, hi, rfl⟩ | hpool
    · exact absurd ⟨[], rfl⟩ hnot
    · exact absurd (hun.inv.tree.direct.isTable hi) hnot
    · exact .inl hpool
  · exact .inr (hp.usable hm (by omega) hk)

theorem Booted.layout {st : BootStack} (hb : Booted im mach st s s') (hk : KernelPlaced im mach) (hm : MachineOk mach)
    (hdev : DevicesPlaced mach) (hst : StackPlaced im mach st) (hap : Apart im s) :
    Reach im s' ∧ (mach.pcieCfg = [] ∨ fbPages mach ≤ 3840) ∧ ∃ e frame, Layout im mach st e frame s' := by
  have hhigh : va48HighStart = 18446603336221196288 := rfl
  have htop : va48StackTop = 18446603336221200384 := rfl
  have hbottom : va48StackBottom = 18446603336222236672 := rfl
  have hguard : va48StackBottomGuard = 18446603336222240768 := rfl
  obtain ⟨n, e, s₁, s₂, s₃, h, hstack⟩ := hb.stages hk hm hap
  obtain ⟨he, hfe, hke⟩ := h.bound
  have hkern := hst.kernel
  obtain ⟨_, s₄, hloop, -⟩ := Exec.bind_eq_ok.1 (show (bootstrapStackLoop im n va48StackTop >>= _) s₃ = .ok () s' from hstack)
  obtain ⟨frame, m, ha⟩ := h.areas hm hdev hloop
  obtain ⟨hc, hcopy⟩ := (bootstrapStackMemory_eq (by omega) hloop).1 hstack
  obtain ⟨s₅, hrun, hl, hlook, hcopied⟩ := h.copied hst ha hc
  rw [hcopy] at hrun
  cases hrun
  obtain ⟨s₀, F, hun, -⟩ := h.unmapped
  have hle := ha.le
  have hnone : ∀ x, va48HighStart ≤ x → x < 2 ^ 64 → lookup s₁.mem im.tab4 x = none := fun x h1 h2 =>
    hun.above x (he.trans (page2M_high h1 h2))
  have hout : ∀ i < 254, ¬ i < m → lookup s'.mem im.tab4 (va48StackTop + 4096 * i) = none := by
    intro i hi him
    rw [hlook, show va48StackTop + 4096 * i = va48HighStart + 4096 * (i + 1) by omega]
    exact ha.lookup_guard (by omega) (fun j hj => by omega) (hnone _ (by omega) (by rw [hhigh]; omega))
  refine ⟨hl.reach, ha.room, e, frame, ⟨hfe, he⟩, fun va hva => ?_, fun i hi => (hlook _).trans (ha.lookup_vesa hi),
    fun i hi => (hlook _).trans (ha.lookup_pcie hi), fun i hi => (hlook _).trans (ha.stack.here i (by omega) _ rfl), ?_,
    fun i hi hsome => ?_,
    hcopied, ⟨?_, ?_⟩, fun f hf => h.free hm (ha.laid.free f (hl.free f hf)), fun va hva h1 h2 h3 => ?_⟩
  · rw [hlook, ha.lookup_low he hva, h.low va hva]
    exact if_congr (and_congr_right fun _ => and_iff_right hva) rfl rfl
  · rcases ha.pages with rfl | ⟨rfl, hempty⟩
    · exact .inl ((hlook _).trans (ha.stack.here 253 (by omega) _ rfl))
    · exact .inr ⟨hout 253 (by omega) (by omega), fun f hf => hempty f (hl.free f hf)⟩
  · have him : i < m := by
      by_contra him
      exact hsome (hout i hi him)
    exact ⟨hl.inUse _ (ha.frames i him).2, fun j hj hij => absurd (ha.inj i him j (by omega) hij) (by omega)⟩
  · rw [hlook]
    exact ha.lookup_guard (j := 0) (by omega) (fun i hi => by omega) (hnone _ (by omega) (by rw [hhigh]; omega))
  · rw [hlook]
    exact ha.lookup_guard (j := 255) (by omega) (fun i hi => by omega) (hnone _ (by omega) (by rw [hhigh]; omega))
  · rw [hlook, ha.elsewhere h1 h2 fun i hi => h3 i (by omega)]
    exact hun.above va hva

/-- When `mm_page_bootstrap` returns, the address space has the layout of mm_private.h, and every call and every result about
runs starts from there. With a PCIe group it does not return for a frame buffer of more than 15M. -/
theorem bootstrap_layout {st : BootStack} (hb : Booted im mach st s s') (hk : KernelPlaced im mach) (hm : MachineOk mach)
    (hdev : DevicesPlaced mach) (hst : StackPlaced im mach st) (hap : Apart im s) : Reach im s' ∧
    (mach.pcieCfg = [] ∨ mach.fbLen ≤ 15 * 1024 * 1024) ∧ ∃ e frame, Layout im mach st e frame s' := by
  obtain ⟨hreach, hroom, hlayout⟩ := hb.layout hk hm hdev hst hap
  refine ⟨hreach, hroom.imp id fun hpages => ?_, hlayout⟩
  unfold fbPages at hpages
  omega

/-! ## A boot -/

/-- There are more than `k` free frames, and the tables can point to all of them. -/
def FramesLeft (im : Image) (s : PageState) (k : Nat) : Prop := ∃ F, Inv im s F ∧ (∀ f ∈ F, IsPage f) ∧ k < F.length

theorem FramesLeft.map {k pa : Nat} (h : FramesLeft im s (k + 3)) (hal : va % 4096 = 0) (hw : ¬ SamePage va directVadd)
    (hnone : lookup s.mem im.tab4 va = none) (hpa : IsPage pa) :
    ∃ s', mmPageMap im va pa s = .ok true s' ∧ FramesLeft im s' k ∧ ∃ N, Mapped im va pa s s' N := by
  obtain ⟨F, hinv, hpage, hlen⟩ := h
  obtain ⟨s', F', N, hrun, hinv', rfl, hN, hm⟩ := mmPageMap_true hinv hal hw hnone hpa hpage (by omega)
  rw [List.length_append] at hlen
  exact ⟨s', hrun, ⟨F', hinv', fun f hf => hpage f (List.mem_append_right _ hf), by omega⟩, N, hm⟩

theorem FramesLeft.alloc {k : Nat} (h : FramesLeft im s (k + 1)) :
    ∃ f, mmFrameAlloc im s = .ok (some f) (popFrame s) ∧ IsPage f ∧ FramesLeft im (popFrame s) k := by
  obtain ⟨F, hinv, hpage, hlen⟩ := h
  cases F with
  | nil => exact absurd hlen (Nat.not_lt_zero _)
  | cons f F =>
    have hf := hpage f (List.mem_cons_self ..)
    exact ⟨f, mmFrameAlloc_cons hinv hf, hf, F, hinv.pop.1, fun g hg => hpage g (List.mem_cons_of_mem _ hg),
      Nat.lt_of_succ_lt_succ hlen⟩

/-- With frames enough all of the frame buffer gets mapped. -/
theorem bootstrapVesaLoop_run (hal : mach.fb % 4096 = 0) (hfb : mach.fb + mach.fbLen ≤ va48LowEnd + 1)
    (hlen : mach.fbLen ≤ va48DirectAccessPage - va48FrameBuffer) {k : Nat} : ∀ {n i : Nat} {s : PageState}, fbPages mach ≤ i + n →
    FramesLeft im s (k + 3 * n) → (∀ j, i ≤ j → j < fbPages mach → lookup s.mem im.tab4 (va48FrameBuffer + 4096 * j) = none) →
    ∃ s', bootstrapVesaLoop im mach (n + 1) (4096 * i) s = .ok () s' ∧ FramesLeft im s' k := by
  have hstart : va48FrameBuffer = 18446603336222244864 := rfl
  have hgap : va48DirectAccessPage - va48FrameBuffer = 4310695936 := rfl
  have hwin : directVadd = 18446603340532940800 := rfl
  rw [hgap] at hlen
  unfold va48LowEnd at hfb
  intro n
  induction n with
  | zero =>
    intro i s hi hs _
    refine ⟨s, ?_, hs⟩
    rw [bootstrapVesaLoop, if_neg (by unfold fbPages at hi; omega)]
    rfl
  | succ n ih =>
    intro i s hi hs hnone
    by_cases hlt : 4096 * i < mach.fbLen
    · have hi' : i < fbPages mach := by unfold fbPages; omega
      have hw : ¬ SamePage (va48FrameBuffer + 4096 * i) directVadd := by
        rw [hstart, hwin]
        unfold SamePage pageSize4K
        omega
      have hpa : IsPage (mach.fb + 4096 * i) := by unfold IsPage pageSize4K va48LowEnd; omega
      obtain ⟨s₁, hmap, hs₁, N, hm⟩ := FramesLeft.map (k := k + 3 * n) hs (by rw [hstart]; omega) hw (hnone i le_rfl hi') hpa
      obtain ⟨s', hrun, hs'⟩ := ih (i := i + 1) (by omega) hs₁ fun j h1 h2 => (hm.elsewhere _ fun hsame => by
        unfold fbPages at h2
        rw [hstart] at hsame
        unfold SamePage pageSize4K at hsame
        omega).trans (hnone j (by omega) h2)
      refine ⟨s', ?_, hs'⟩
      rw [bootstrapVesaLoop, if_pos hlt, u64_of_lt (n := va48FrameBuffer + 4096 * i) (by rw [hstart]; omega),
        u64_of_lt (n := mach.fb + 4096 * i) (by omega), show u64 (4096 * i + pageSize4K) = 4096 * (i + 1) by
          unfold u64 pageSize4K; omega,
        Exec.bind_ok hmap, Exec.bind_ok (kernelAssert_pos rfl _ _)]
      exact hrun
    · obtain ⟨F, hinv, hpage, hcount⟩ := hs
      refine ⟨s, ?_, F, hinv, hpage, by omega⟩
      rw [bootstrapVesaLoop, if_neg hlt]
      rfl

/-- And the stack. -/
theorem bootstrapStackLoop_run {k : Nat} : ∀ {n i : Nat} {s : PageState}, i + n = 254 → FramesLeft im s (k + 4 * n) →
    (∀ j, i ≤ j → j < 254 → lookup s.mem im.tab4 (va48StackTop + 4096 * j) = none) →
    ∃ s', (∀ m > n, bootstrapStackLoop im m (va48StackTop + 4096 * i) s = .ok () s') ∧ FramesLeft im s' k := by
  have htop : va48StackTop = 18446603336221200384 := rfl
  have hbottom : va48StackBottom = 18446603336222236672 := rfl
  have hwin : directVadd = 18446603340532940800 := rfl
  intro n
  induction n with
  | zero =>
    intro i s hi hs _
    refine ⟨s, fun m hm => ?_, hs⟩
    obtain ⟨m, rfl⟩ := Nat.exists_eq_succ_of_ne_zero (Nat.ne_of_gt hm)
    rw [bootstrapStackLoop, if_neg (by rw [htop, hbottom]; omega)]
    rfl
  | succ n ih =>
    intro i s hi hs hnone
    obtain ⟨f, halloc, hpage, hs₁⟩ := FramesLeft.alloc (k := k + 4 * n + 3) hs
    have hw : ¬ SamePage (va48StackTop + 4096 * i) directVadd := by
      rw [htop, hwin]
      unfold SamePage pageSize4K
      omega
    obtain ⟨s₂, hmap, hs₂, N, hm⟩ := hs₁.map (by rw [htop]; omega) hw (hnone i le_rfl (by omega)) hpage
    obtain ⟨s', hrun, hs'⟩ := ih (i := i + 1) (by omega) hs₂ fun j h1 h2 => (hm.elsewhere _ fun hsame => by
      rw [htop] at hsame
      unfold SamePage pageSize4K at hsame
      omega).trans (hnone j (by omega) h2)
    refine ⟨s', fun m hm => ?_, hs'⟩
    obtain ⟨m, rfl⟩ := Nat.exists_eq_succ_of_ne_zero (Nat.ne_of_gt (Nat.zero_lt_of_lt hm))
    rw [bootstrapStackLoop, if_pos (by rw [htop, hbottom]; omega), Exec.bind_ok halloc,
      Exec.bind_ok (kernelAssert_pos (Option.isSome_some) _ _), Option.getD_some, Exec.bind_ok hmap,
      show u64 (va48StackTop + 4096 * i + pageSize4K) = va48StackTop + 4096 * (i + 1) by rw [htop]; unfold u64 pageSize4K; omega]
    exact hrun m (by omega)

theorem mmCopyWords_freeCount {dest src c : Nat} :
    ∀ {n : Nat}, Exec.Maintains (fun s => s.freeCount = c) (mmCopyWords im dest src n)
  | 0 => .pure _
  | n + 1 => by
    have hread : ∀ va, Exec.Maintains (fun s => s.freeCount = c) (readVa im va) := fun va => .get fun s => by
      cases translate s.mem im.tab4 va with
      | none => exact .throw _
      | some pa => exact .pure _
    have hwrite : ∀ va v, Exec.Maintains (fun s => s.freeCount = c) (writeVa im va v) := fun va v => .get fun s => by
      cases translate s.mem im.tab4 va with
      | none => exact .throw _
      | some pa => exact .modify fun _ h => h
    exact .bind mmCopyWords_freeCount fun _ => .bind (hread _) fun _ => hwrite _ _

/-- Copying takes none of them. -/
theorem FramesLeft.copied {dest src n k : Nat} (h : FramesLeft im s k) (hl : Laid im s s')
    (hrun : mmCopyWords im dest src n s = .ok () s') : FramesLeft im s' k := by
  obtain ⟨F, hinv, hpage, hlen⟩ := h
  obtain ⟨F', hinv'⟩ := hl.reach.inv
  refine ⟨F', hinv', fun f hf => hpage f (hinv.onFreeList.1 (hl.free f (hinv'.onFreeList.2 hf))), ?_⟩
  have hcount : s'.freeCount = s.freeCount := mmCopyWords_freeCount _ _ _ rfl hrun
  rwa [hinv.count.symm.trans (hcount.symm.trans hinv'.count)] at hlen

/-- 96M of memory with the kernel in `[1M, 80M)`, a frame buffer of 3M, and 512M more behind it. -/
def machine₁ : Machine := ⟨0x100000, 0x5000000, [⟨0, 0x6000000⟩, ⟨0x8000000, 0x20000000⟩], 0x7000000, 0x300000, []⟩

theorem machine₁_ok : MachineOk machine₁ := ⟨⟨by decide, by decide, by decide⟩, by decide, by decide, by decide⟩

theorem image₀_placed₁ : KernelPlaced image₀ machine₁ :=
  ⟨image₀_placed.toEarlyPlaced, by decide, by decide, by decide, image₀_placed.pool_lt, image₀_placed.direct⟩

/-- Between `_tab_4` and the other tables. -/
def bootStack₁ : BootStack := ⟨0x150000, 0x154000, 0x153f80⟩

theorem bootStack₁_placed : StackPlaced image₀ machine₁ bootStack₁ := by
  have h1 : ∀ x, bootStack₁.position ≤ x → x < bootStack₁.bottom → 0x153f80 ≤ x ∧ x < 0x154000 := fun _ h1 h2 => ⟨h1, h2⟩
  refine ⟨rfl, by decide, fun x hl hr => ?_, fun x hl hr i _ => ?_, fun x hl hr k _ => ?_⟩ <;> obtain ⟨h2, h3⟩ := h1 x hl hr
  · right
    show 0x100000 + 4096 ≤ x
    omega
  · left
    show x < directTab image₀ i
    unfold directTab image₀ pageSize4K tabEntryLen
    dsimp only
    omega
  · left
    unfold poolFrame image₀ pageSize4K
    dsimp only
    omega

/-- The loop of `mm_page_bootstrap` frees the memory behind this frame buffer. -/
theorem machine₁_unmaps : ∃ e s s₁ s₀ F,
    mmPageEarlyBootstrap image₀ machine₁ (fun _ => true) 513 { early₀ with isEarlyStage := true } = .ok e s ∧
    mmPageBootstrapUnmap image₀ machine₁ 1000 (frameBootstrapped s) = .ok e s₁ ∧ e ≤ 2 ^ 44 ∧
      Unmapping image₀ machine₁ s₀ e e s₁ F ∧
    (∀ t, IsTable image₀ s₀ t → t = image₀.tab4 ∨ (∃ i < 3, t = directTab image₀ i) ∨ ∃ k < earlyFrameCap, t = poolFrame image₀ k) ∧
    Reach image₀ s₁ ∧ Low image₀ machine₁ e e s₁ ∧ FramesLeft image₀ s₁ (70000 + 4 * 254 + 3 * 999) := by
  have hend : ∀ s, mmPaEnd machine₁ s = .ok 0x28000000 s := fun _ => rfl
  have hk := image₀_placed₁
  have hfirst : firstPage machine₁ = 0x5200000 := rfl
  obtain ⟨e, s, hearly, hle, hlt, -⟩ :=
    mmPageEarlyBootstrap_run hk.toEarlyPlaced (s := { early₀ with isEarlyStage := true }) rfl rfl
    (fun _ => rfl) hend (by decide) (by decide) (by decide) (by norm_num)
  have hid := mmPageEarlyBootstrap_ok hk.toEarlyPlaced rfl rfl hearly
  have hal := hid.align
  obtain rfl : e = 0x27e00000 := by omega
  obtain ⟨s₀, hinit, hun, htab⟩ := hid.begin hk (image₀_apart s) rfl
  obtain ⟨r, s₁, hloop⟩ := bootstrapUnmapLoop_run (fun t ht => hk.table_lt hid htab ht) hal hid.le hle (n := 999) hun
    (by rw [hfirst]; omega) (by rw [hfirst]; omega)
  have hrun : mmPageBootstrapUnmap image₀ machine₁ 1000 (frameBootstrapped s) = .ok r s₁ := by
    unfold mmPageBootstrapUnmap
    rw [Exec.bind_ok (hend _), Exec.bind_ok (kernelAssert_pos (by decide) _ _), Exec.bind_ok hinit,
      Exec.bind_ok (kernelAssert_pos (by decide) _ _), Exec.bind_ok (mmAlignUp_firstPage hk _)]
    exact hloop
  obtain ⟨s₀', F, phyEnd, hun', -, ⟨t, hphy⟩, hr⟩ := mmPageBootstrapUnmap_ok hid hk machine₁_ok.toPciePlaced (image₀_apart s) hrun
  rw [hend] at hphy
  cases hphy
  obtain rfl : r = 0x27e00000 := by
    have := hun'.align
    by_contra hne
    have hin := hun'.inside 0x27e00000 (by decide) (by rw [hfirst]; omega) le_rfl (by omega)
    cases hin
  obtain ⟨s₀, F, hun, htab, hreach, hlow⟩ := mmPageBootstrapUnmap_low hid hk machine₁_ok.toPciePlaced (image₀_apart s) hrun
  refine ⟨_, s, s₁, s₀, F, hearly, hrun, hid.le, hun, htab, hreach, hlow, F, hun.inv, hun.isPage hk hid.le htab, ?_⟩
  -- the frames of the pages from 128M on
  have hfreed : ∀ j < 160, Freed machine₁ 0x27e00000 (0x8000000 + 2097152 * j) := by
    intro j hj
    refine ⟨by omega, by rw [hfirst]; omega, by omega, rfl, (machine₁_ok.freeFrame_iff (by omega)).2 ⟨?_, .inl ?_⟩⟩
    · exact ⟨_, List.mem_cons_of_mem _ (List.mem_cons_self ..), by dsimp only; omega, by dsimp only; omega⟩
    · show 0x7000000 + 0x300000 < _
      omega
  have hsub : (List.range 81920).map (fun k => 0x8000000 + 4096 * k) ⊆ F := by
    intro f hf
    obtain ⟨k, hk', rfl⟩ := List.mem_map.1 hf
    have hk' := List.mem_range.1 hk'
    have := hun.all _ (hfreed (k / 512) (by omega)) (k % 512) (by omega)
    rwa [show 0x8000000 + 2097152 * (k / 512) + 4096 * (k % 512) = 0x8000000 + 4096 * k by omega] at this
  have hnodup : ((List.range 81920).map fun k => 0x8000000 + 4096 * k).Nodup :=
    List.nodup_range.map fun a b hab => by omega
  have hlen := (hnodup.subperm hsub).length_le
  rw [List.length_map, List.length_range] at hlen
  omega

theorem machine₁_devices : DevicesPlaced machine₁ := ⟨by decide, by decide, by decide⟩

/-- This machine boots, and has a lot of memory left. -/
theorem machine₁_booted : ∃ s s', Booted image₀ machine₁ bootStack₁ s s' ∧ FramesLeft image₀ s' 70000 := by
  obtain ⟨e, s, s₁, s₀, F, hearly, hunmap, he, hun, htab, hreach, hlow, hleft⟩ := machine₁_unmaps
  have hk := image₀_placed₁
  have hdev := machine₁_devices
  have hnone : ∀ x, va48HighStart ≤ x → x < 2 ^ 64 → lookup s₁.mem image₀.tab4 x = none := fun x h1 h2 =>
    hun.above x (he.trans (page2M_high h1 h2))
  have hfbs : va48FrameBuffer = 18446603336222244864 := rfl
  have hhigh : va48HighStart = 18446603336221196288 := rfl
  have hpages : fbPages machine₁ = 768 := rfl
  obtain ⟨s₂, hvesa, hleft₂⟩ := bootstrapVesaLoop_run (i := 0) (by decide) hdev.fb hdev.fbLen (by decide) hleft
    fun j _ hj => hnone _ (by rw [hfbs, hhigh]; omega) (by rw [hfbs]; omega)
  have hst : Stages image₀ machine₁ 1000 e s₁ s₂ s₂ :=
    ⟨⟨s₀, F, hun, htab⟩, hreach, hlow, ⟨he, hun.first, (firstPage_spec hk).2.1⟩, hvesa, rfl⟩
  obtain ⟨-, -, -, -, hl, hnone₂⟩ := hst.devices machine₁_ok hdev
  obtain ⟨s₄, hloop, hleft₄⟩ := bootstrapStackLoop_run (i := 0) (n := 254) rfl hleft₂ fun j _ hj => hnone₂ j hj
  obtain ⟨frame, m, ha⟩ := hst.areas machine₁_ok hdev (hloop 1000 (by decide))
  have hc : StackChecked bootStack₁ := ⟨by decide, by decide, by decide, by decide, by decide⟩
  obtain ⟨s', hcopy, hl', -⟩ := hst.copied bootStack₁_placed ha hc
  have hstack := (bootstrapStackMemory_eq (by decide) (hloop 1000 (by decide))).2 ⟨hc, hcopy⟩
  have hboot : mmFrameBootstrap s = .ok () (frameBootstrapped s) := by
    unfold mmFrameBootstrap
    rw [Exec.bind_ok (Exec.get_run s),
      Exec.bind_ok (kernelAssert_pos (mmPageEarlyBootstrap_ok hk.toEarlyPlaced rfl rfl hearly).stage _ s)]
    rfl
  have hfb : bootstrapVesaFrameBuffer image₀ machine₁ 1000 s₁ = .ok va48FrameBuffer s₂ := by
    unfold bootstrapVesaFrameBuffer
    rw [Exec.bind_ok (kernelAssert_pos (by decide) _ _), Exec.bind_ok hvesa]
    rfl
  refine ⟨s, s', ⟨_, _, 1000, e, _, va48FrameBuffer, rfl, rfl, hearly, ?_⟩, hleft₄.copied hl' hcopy⟩
  rw [Exec.bind_ok hboot]
  unfold mmPageBootstrap
  rw [Exec.bind_ok hunmap, Exec.bind_ok (kernelAssert_pos rfl _ _), Exec.bind_ok hfb, Exec.bind_ok hst.pcie, Exec.bind_ok hstack]
  rfl

theorem bootstrap_layout_machine₁ : ∃ s s' e frame, Booted image₀ machine₁ bootStack₁ s s' ∧ Reach image₀ s' ∧
    Layout image₀ machine₁ bootStack₁ e frame s' := by
  obtain ⟨s, s', hb, -⟩ := machine₁_booted
  obtain ⟨hreach, -, e, frame, hlayout⟩ :=
    bootstrap_layout hb image₀_placed₁ machine₁_ok machine₁_devices bootStack₁_placed (image₀_apart s)
  exact ⟨s, s', e, frame, hb, hreach, hlayout⟩

end Cing.Page
