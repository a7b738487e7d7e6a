/-
The frame pool built at boot. `mm_page_bootstrap` goes through the 2M pages above the kernel; those
outside the PCIe config spaces are unmapped, and their frames freed if the page lies in a section and
behind the frame buffer. Next to these frames only tables of the early stage that became empty get on
the list. A page below the frame buffer is never freed: the test that should see it compares the frame
buffer with itself.
-/
import Cing.Mm.Page.EarlyMap
import Cing.Mm.Page.Runs

namespace Cing.Page

open Linked

variable {im : Image} {mach : Machine} {s s' : PageState} {F : List Nat} {e u : Nat}

/-! ## The kernel image -/

/-- The static tables and the pool lie in the kernel image, which is smaller than 1G, as
`_bootstrap_kernel_elf_symbols` asserts. -/
structure KernelPlaced (im : Image) (mach : Machine) : Prop extends EarlyPlaced im where
  start : mach.kernelStart ≤ im.tab4
  size : mach.kernelEnd < mach.kernelStart + 2 ^ 30
  tab4_lt : im.tab4 < mach.kernelEnd
  pool_lt : ∀ k < earlyFrameCap, poolFrame im k < mach.kernelEnd
  direct : ∀ i < 3, LowFrame (directTab im i) ∧ directTab im i < mach.kernelEnd ∧ directTab im i ≠ im.tab4

/-- The 2M boundary following the kernel. -/
def firstPage (mach : Machine) : Nat := (mach.kernelEnd + 2097152) / 2097152 * 2097152

theorem KernelPlaced.end_lt (h : KernelPlaced im mach) : mach.kernelEnd < 2 ^ 47 + 2 ^ 30 := by
  have h1 := h.tab4.1.bounds.2
  have h2 := h.start
  have h3 := h.size
  omega

/-! ## The loop -/

/-- A page whose frames the loop has freed once it is at `u`. -/
structure Freed (mach : Machine) (u p : Nat) : Prop where
  align : p % 2097152 = 0
  first : firstPage mach ≤ p
  lt : p < u
  outside : bootstrapPaInsidePcieCfgSpace mach p = false
  free : freeFrame mach p = true

/-- The state of the loop at `u`, started in `s₁` with an identity map below `e`. -/
structure Unmapping (im : Image) (mach : Machine) (s₁ : PageState) (e u : Nat) (s : PageState) (F : List Nat) : Prop where
  inv : Inv im s F
  align : u % 2097152 = 0
  first : firstPage mach ≤ u
  here : ∀ p, p % 2097152 = 0 → u ≤ p → p < e → lookup s.mem im.tab4 p = some ⟨p, true, true⟩
  above : ∀ p, e ≤ page2M p → lookup s.mem im.tab4 p = none
  inside : ∀ p, p % 2097152 = 0 → firstPage mach ≤ p → e ≤ p → p < u → bootstrapPaInsidePcieCfgSpace mach p = true
  tables : ∀ t, IsTable im s t → IsTable im s₁ t
  free : ∀ f ∈ F, IsTable im s₁ f ∨ ∃ p, Freed mach u p ∧ ∃ k < 512, f = p + 4096 * k
  all : ∀ p, Freed mach u p → ∀ k < 512, p + 4096 * k ∈ F

theorem Freed.mono {u' p : Nat} (h : Freed mach u p) (hu : u ≤ u') : Freed mach u' p :=
  ⟨h.align, h.first, h.lt.trans_le hu, h.outside, h.free⟩

/-- A page the next round leaves alone. -/
theorem Freed.of_next {p : Nat} (h : Freed mach (u + 2097152) p) (hu : u % 2097152 = 0) (hne : p ≠ u) : Freed mach u p := by
  have h1 := h.align
  have h2 := h.lt
  exact ⟨h.align, h.first, by omega, h.outside, h.free⟩

section Round

variable {s₁ : PageState}

/-- A round on a page of a config space. -/
theorem Unmapping.skip (h : Unmapping im mach s₁ e u s F) (hin : bootstrapPaInsidePcieCfgSpace mach u = true) :
    bootstrapUnmapPage im mach u s = .ok () s ∧ Unmapping im mach s₁ e (u + 2097152) s F := by
  have hal := h.align
  have hfirst := h.first
  have hne : ∀ p, Freed mach (u + 2097152) p → p ≠ u := by
    rintro p hp rfl
    rw [hp.outside] at hin
    cases hin
  refine ⟨?_, h.inv, by omega, by omega, fun p h1 h2 h3 => h.here p h1 (by omega) h3, h.above, fun p h1 h2 h3 h4 => ?_, h.tables,
    fun f hf => ?_, fun p hp k hk => h.all p (hp.of_next hal (hne p hp)) k hk⟩
  · unfold bootstrapUnmapPage
    rw [if_pos hin]
    rfl
  · by_cases hp : p = u
    · rw [hp]; exact hin
    · exact h.inside p h1 h2 h3 (by omega)
  · rcases h.free f hf with hf | ⟨p, hp, hk⟩
    · exact .inl hf
    · exact .inr ⟨p, hp.mono (by omega), hk⟩

/-- The frames of the page the loop is at are in no use: tables lie in the kernel, and the list holds tables and
frames of pages before. -/
theorem Unmapping.unused (h : Unmapping im mach s₁ e u s F) (htab : ∀ t, IsTable im s₁ t → t < firstPage mach) (hu : u < e)
    (he : e ≤ 2 ^ 44) {k : Nat} (hk : k < 512) : Unused im s F (u + 4096 * k) := by
  have hal := h.align
  have hfirst := h.first
  have hpos : 0 < firstPage mach := by unfold firstPage; omega
  refine ⟨⟨?_, by omega, by omega⟩, fun hf => ?_, fun q hq => ?_⟩
  · unfold pageSize4K
    omega
  · rcases h.free _ hf with ht | ⟨p, hp, k', hk', heq⟩
    · have := htab _ ht
      omega
    · have h1 := hp.align
      have h2 := hp.lt
      omega
  · have := htab _ (h.tables _ ⟨q, hq⟩)
    omega

/-- A round on a mapped page. -/
theorem Unmapping.round (h : Unmapping im mach s₁ e u s F) (htab : ∀ t, IsTable im s₁ t → t < firstPage mach) (hu : u < e)
    (he : e ≤ 2 ^ 44) (hout : bootstrapPaInsidePcieCfgSpace mach u = false) :
    ∃ s' F', bootstrapUnmapPage im mach u s = .ok () s' ∧ Unmapping im mach s₁ e (u + 2097152) s' F' := by
  have hal := h.align
  have hfirst := h.first
  have hl := h.here u hal le_rfl hu
  have hunused : freeFrame mach u = true → ∀ f ∈ Leaf.frames ⟨u, true, true⟩, Unused im s F f := by
    intro _ f hf
    obtain ⟨k, hk, rfl⟩ := List.mem_map.1 hf
    exact h.unused htab hu he (List.mem_range.1 hk)
  obtain ⟨s₂, F₂, hfree, h₂, hsame, -, hmem⟩ := unmapFree_run h.inv hl hal (by omega) hunused
  obtain ⟨s', R, hrun, h', hun⟩ := unmap_run h.inv hl hal hfree h₂ hsame
  have hrun : unmap im u pageSize2M (freeFrame mach u) s = .ok u s' := hrun
  have hmem := hmem rfl
  have hpath : ∀ p, Radix.path (key p) 3 = Radix.path (key u) 3 ↔ page2M p = u := by
    intro p
    rw [path3_iff, show page2M u = u by unfold page2M; omega]
  refine ⟨s', R ++ F₂, ?_, h', by omega, by omega, fun p h1 h2 h3 => ?_, fun p hp => ?_, fun p h1 h2 h3 h4 => ?_, fun t ht => ?_,
    fun f hf => ?_, fun p hp k hk => ?_⟩
  · unfold bootstrapUnmapPage
    rw [hout, if_neg (by decide), Exec.bind_ok hrun]
    rfl
  · refine (hun.elsewhere p fun hp => ?_).trans (h.here p h1 (by omega) h3)
    have := (hpath p).1 hp
    unfold page2M at this
    omega
  · refine (hun.elsewhere p fun hp' => ?_).trans (h.above p hp)
    have := (hpath p).1 hp'
    omega
  · exact h.inside p h1 h2 h3 (by omega)
  · exact h.tables t (hun.isTable.1 ht).1
  · rcases List.mem_append.1 hf with hf | hf
    · exact .inl (h.tables f (hun.tables f hf))
    · rcases (hmem f).1 hf with hf | ⟨hfr, k, hk, rfl⟩
      · rcases h.free f hf with hf | ⟨p, hp, hk⟩
        · exact .inl hf
        · exact .inr ⟨p, hp.mono (by omega), hk⟩
      · exact .inr ⟨u, ⟨hal, hfirst, by omega, hout, hfr⟩, k, hk, rfl⟩
  · refine List.mem_append_right _ ((hmem _).2 ?_)
    by_cases hpu : p = u
    · subst hpu
      exact .inr ⟨hp.free, k, hk, rfl⟩
    · exact .inl (h.all p (hp.of_next hal hpu) k hk)

/-- A round on a page that is not mapped stops. -/
theorem Unmapping.stops (h : Unmapping im mach s₁ e u s F) (hu : e ≤ u) (hlt : u < 2 ^ 48) (hw : ¬ SamePage u directVadd)
    (hout : bootstrapPaInsidePcieCfgSpace mach u = false) : ∃ err s', bootstrapUnmapPage im mach u s = .error err s' := by
  have hal := h.align
  have hnone : lookup s.mem im.tab4 u = none := h.above u (by unfold page2M; omega)
  obtain ⟨err, s', hrun⟩ := unmap_none h.inv hw hnone pageSize2M (freeFrame mach u)
  refine ⟨err, s', ?_⟩
  unfold bootstrapUnmapPage
  rw [hout, if_neg (by decide), Exec.bind_error hrun]

end Round

/-! ## Config spaces -/

/-- The config spaces as the PCIe driver accepts them: at most eight, each aligned to its size, and none that ends
past the address space. -/
structure PciePlaced (mach : Machine) : Prop where
  few : mach.pcieCfg.length ≤ 8
  align : ∀ g ∈ mach.pcieCfg, g % 2 ^ 28 = 0
  lt : ∀ g ∈ mach.pcieCfg, g + 2 ^ 28 < 2 ^ 64

theorem PciePlaced.inside_iff (h : PciePlaced mach) {p : Nat} :
    bootstrapPaInsidePcieCfgSpace mach p = true ↔ ∃ g ∈ mach.pcieCfg, g ≤ p ∧ p < g + 2 ^ 28 := by
  unfold bootstrapPaInsidePcieCfgSpace
  rw [List.any_eq_true]
  refine exists_congr fun g => and_congr_right fun hg => ?_
  have hlt := h.lt g hg
  rw [decide_eq_true_eq, show dPcieGroupGetCfgLen = 2 ^ 28 from rfl, u64_of_lt hlt]

/-- Eight config spaces do not cover more than 2G without a gap. -/
theorem PciePlaced.covered_le (h : PciePlaced mach) {b : Nat} (hb : b % 2097152 = 0)
    (hin : ∀ p, p % 2097152 = 0 → b ≤ p → p < u → bootstrapPaInsidePcieCfgSpace mach p = true) : u ≤ b + 2 ^ 31 := by
  by_contra hlt
  have hpage : ∀ k : Fin 9, ∃ g ∈ mach.pcieCfg, g ≤ b + k * 2 ^ 28 ∧ b + k * 2 ^ 28 < g + 2 ^ 28 := by
    intro k
    have hk := k.isLt
    exact h.inside_iff.1 (hin _ (by omega) (by omega) (by omega))
  choose g hg hle hgt using hpage
  have hinj : Function.Injective g := by
    intro j k hjk
    have h1 := hle j
    have h2 := hgt j
    have h3 := hle k
    have h4 := hgt k
    rw [hjk] at h1 h2
    refine Fin.ext ?_
    omega
  have hsub : (List.finRange 9).map g ⊆ mach.pcieCfg := by
    intro x hx
    obtain ⟨k, -, rfl⟩ := List.mem_map.1 hx
    exact hg k
  have hlen := (List.subperm_of_subset ((List.nodup_finRange 9).map hinj) hsub).length_le
  have hfew := h.few
  rw [List.length_map, List.length_finRange] at hlen
  omega

/-! ## The whole loop -/

section Loop

variable {s₁ : PageState}

/-- The loop does not get past the config spaces behind the identity map. -/
theorem Unmapping.le (h : Unmapping im mach s₁ e u s F) (hpc : PciePlaced mach) (hal : e % 2097152 = 0) :
    u ≤ max e (firstPage mach) + 2 ^ 31 := by
  refine hpc.covered_le ?_ fun p h1 h2 h3 => h.inside p h1 (by omega) (by omega) h3
  have : firstPage mach % 2097152 = 0 := by unfold firstPage; omega
  omega

/-- A page that the loop gets over is in a config space, or it was mapped. -/
theorem Unmapping.page_ok (h : Unmapping im mach s₁ e u s F) (hpc : PciePlaced mach)
    (htab : ∀ t, IsTable im s₁ t → t < firstPage mach)
    (hal : e % 2097152 = 0) (he : e ≤ 2 ^ 44) (hfirst : firstPage mach < 2 ^ 47 + 2 ^ 31)
    (hpage : bootstrapUnmapPage im mach u s = .ok () s') :
    (bootstrapPaInsidePcieCfgSpace mach u = true ∨ u < e) ∧ ∃ F', Unmapping im mach s₁ e (u + 2097152) s' F' := by
  have hle := h.le hpc hal
  cases hin : bootstrapPaInsidePcieCfgSpace mach u with
  | true =>
    obtain ⟨hrun', h'⟩ := h.skip hin
    rw [hpage] at hrun'
    cases hrun'
    exact ⟨.inl rfl, F, h'⟩
  | false =>
    by_cases hu : u < e
    · obtain ⟨s₃, F', hrun', h'⟩ := h.round htab hu he hin
      rw [hpage] at hrun'
      cases hrun'
      exact ⟨.inr hu, F', h'⟩
    · have hw : ¬ SamePage u directVadd := by
        unfold SamePage pageSize4K
        rw [show directVadd / 4096 % 2 ^ 36 = 34360791040 by decide]
        omega
      obtain ⟨err, s₃, hrun'⟩ := h.stops (by omega) (by omega) hw hin
      rw [hpage] at hrun'
      cases hrun'

/-- What the loop has done when it is at its end. -/
theorem bootstrapUnmapLoop_ok (hpc : PciePlaced mach) (htab : ∀ t, IsTable im s₁ t → t < firstPage mach)
    (hal : e % 2097152 = 0) (he : e ≤ 2 ^ 44) (hfirst : firstPage mach < 2 ^ 47 + 2 ^ 31) {phyEnd : Nat} :
    ∀ {n u r : Nat} {s s' : PageState} {F : List Nat}, Unmapping im mach s₁ e u s F →
    bootstrapUnmapLoop im mach phyEnd n u s = .ok r s' → ∃ F', Unmapping im mach s₁ e r s' F' ∧ phyEnd ≤ r + 2097152
  | 0, _, _, _, _, _, _, hrun => by cases hrun
  | n + 1, u, r, s, s', F, h, hrun => by
    have hle := h.le hpc hal
    have hnext : u64 (u + pageSize2M) = u + 2097152 := by unfold u64 pageSize2M; omega
    rw [bootstrapUnmapLoop, hnext] at hrun
    split at hrun
    · obtain ⟨_, s₂, hpage, hrun⟩ := Exec.bind_eq_ok.1 hrun
      obtain ⟨-, F', h'⟩ := h.page_ok hpc htab hal he hfirst hpage
      exact bootstrapUnmapLoop_ok hpc htab hal he hfirst h' hrun
    · cases hrun
      exact ⟨F, h, by omega⟩

/-- The loop runs to its end if every page it comes to is mapped. -/
theorem bootstrapUnmapLoop_run (htab : ∀ t, IsTable im s₁ t → t < firstPage mach) (hal : e % 2097152 = 0) (he : e ≤ 2 ^ 44)
    {phyEnd : Nat} (hend : phyEnd ≤ e + 2097152) : ∀ {n u : Nat} {s : PageState} {F : List Nat},
    Unmapping im mach s₁ e u s F → u ≤ e →
    e ≤ u + n * 2097152 → ∃ r s', bootstrapUnmapLoop im mach phyEnd (n + 1) u s = .ok r s' := by
  intro n
  induction n with
  | zero =>
    intro u s F h hu hn
    have hstop : ¬ u64 (u + pageSize2M) < phyEnd := by unfold u64 pageSize2M; omega
    rw [bootstrapUnmapLoop, if_neg hstop]
    exact ⟨_, _, rfl⟩
  | succ n ih =>
    intro u s F h hu hn
    have hnext : u64 (u + pageSize2M) = u + 2097152 := by unfold u64 pageSize2M; omega
    rw [bootstrapUnmapLoop, hnext]
    split
    · have hlt : u < e := by omega
      have hu' := h.align
      obtain ⟨s₂, F₂, hpage, h₂⟩ : ∃ s₂ F₂, bootstrapUnmapPage im mach u s = .ok () s₂ ∧
          Unmapping im mach s₁ e (u + 2097152) s₂ F₂ := by
        cases hin : bootstrapPaInsidePcieCfgSpace mach u with
        | true => exact ⟨s, F, h.skip hin⟩
        | false => exact h.round htab hlt he hin
      rw [Exec.bind_ok hpage]
      exact ih h₂ (by omega) (by omega)
    · exact ⟨u, s, rfl⟩

end Loop

/-! ## From the early stage to the loop -/

/-- The state after `mm_frame_bootstrap`. -/
def frameBootstrapped (s : PageState) : PageState := { s with freeHead := 0, freeCount := 0, isEarlyStage := false }

/-- The tables of the window share no frame with the tables of the early stage. -/
def Apart (im : Image) (s : PageState) : Prop := ∀ i < 3, ∀ k < s.earlyFrameCount, directTab im i ≠ poolFrame im k

theorem Identity.early (h : Identity im s e) (hk : KernelPlaced im mach) (hap : Apart im s)
    (harray : im.directTabArray % pageSize4K = 0) : Early im (frameBootstrapped s) [] := by
  refine ⟨h.tables, h.slot, rfl, rfl, List.nodup_nil, rfl, nofun, nofun, harray, fun i hi => (hk.direct i hi).1,
    fun i hi q hq => ?_, fun i hi => List.not_mem_nil⟩
  cases q with
  | nil => exact (hk.direct i hi).2.2 (Option.some.inj hq).symm
  | cons j q =>
    obtain ⟨k, hlt, he⟩ := h.pool hq nofun
    exact hap i hi k hlt he

theorem firstPage_spec (hk : KernelPlaced im mach) : firstPage mach % 2097152 = 0 ∧ mach.kernelEnd < firstPage mach ∧
    firstPage mach < 2 ^ 47 + 2 ^ 31 := by
  have := hk.end_lt
  unfold firstPage
  omega

/-- The state in which the loop starts. -/
theorem Identity.begin (h : Identity im s e) (hk : KernelPlaced im mach) (hap : Apart im s)
    (harray : im.directTabArray % pageSize4K = 0) : ∃ s₁, initDirectAccess im (frameBootstrapped s) = .ok () s₁ ∧
      Unmapping im mach s₁ e (firstPage mach) s₁ [] ∧
      ∀ t, IsTable im s₁ t → t = im.tab4 ∨ (∃ i < 3, t = directTab im i) ∨
        (IsTable im s t ∧ ∃ k < s.earlyFrameCount, t = poolFrame im k) := by
  obtain ⟨m, hrun, hinv, hl⟩ := initDirectAccess_run (h.early hk hap harray)
  obtain ⟨hfal, -, -⟩ := firstPage_spec hk
  have hle := h.le
  refine ⟨_, hrun, ⟨hinv, hfal, le_rfl, fun p h1 h2 h3 => ?_, fun p hp => (hl.lookup p).trans (h.above p hp),
    fun p h1 h2 h3 h4 => ?_, fun _ => id, nofun, fun p hp => ?_⟩, ?_⟩
  · have hp : page2M p = p := by unfold page2M; omega
    refine (hl.lookup p).trans ?_
    rw [← hp]
    show lookup s.mem im.tab4 (page2M p) = _
    rw [hp, h.here p (by omega), hp]
  · omega
  · have h1 := hp.first
    have h2 := hp.lt
    omega
  · rintro t ⟨q, hq⟩
    rcases hl.new hq with hq | ⟨i, hi, he⟩
    · cases q with
      | nil => exact .inl (Option.some.inj hq).symm
      | cons j q => exact .inr (.inr ⟨⟨_, hq⟩, h.pool hq nofun⟩)
    · exact .inr (.inl ⟨i, hi, he⟩)

theorem KernelPlaced.table_lt (hk : KernelPlaced im mach) (h : Identity im s e) {s₁ : PageState}
    (htab : ∀ t, IsTable im s₁ t → t = im.tab4 ∨ (∃ i < 3, t = directTab im i) ∨
      (IsTable im s t ∧ ∃ k < s.earlyFrameCount, t = poolFrame im k)) {t : Nat} (ht : IsTable im s₁ t) : t < firstPage mach := by
  have hlt : t < mach.kernelEnd := by
    rcases htab t ht with rfl | ⟨i, hi, rfl⟩ | ⟨-, k, hlt, rfl⟩
    · exact hk.tab4_lt
    · exact (hk.direct i hi).2.1
    · exact hk.pool_lt k (hlt.trans_le h.count)
  exact hlt.trans (firstPage_spec hk).2.1

/-- The first assertion of `_init_direct_access`. -/
theorem initDirectAccess_array (h : initDirectAccess im s = .ok () s') : im.directTabArray % pageSize4K = 0 := by
  unfold initDirectAccess at h
  obtain ⟨_, t, h, -⟩ := Exec.bind_eq_ok.1 h
  simpa [mmAlignCheck] using (kernelAssert_ok h).1

theorem mmAlignUp_firstPage (hk : KernelPlaced im mach) (s : PageState) :
    mmAlignUp (u64 (mach.kernelEnd + 1)) pageSize2M s = .ok (firstPage mach) s := by
  have hlt := hk.end_lt
  have hu : u64 (mach.kernelEnd + 1) = mach.kernelEnd + 1 := u64_of_lt (by omega)
  have hsize : pageSize2M = 2 ^ 21 := by unfold pageSize2M; norm_num
  have hpage : firstPage mach = (mach.kernelEnd + 1 + 2 ^ 21 - 1) / 2 ^ 21 * 2 ^ 21 := by
    unfold firstPage
    rw [show mach.kernelEnd + 1 + 2 ^ 21 - 1 = mach.kernelEnd + 2097152 by omega]
    norm_num
  rw [hu, hpage, hsize]
  exact mmAlignUp_run (by omega) (by omega) s

/-- What ran when that part of `mm_page_bootstrap` returned: the windows were set up, and the loop came to its end. -/
theorem mmPageBootstrapUnmap_cases (hk : KernelPlaced im mach) {n r : Nat} (hrun : mmPageBootstrapUnmap im mach n s = .ok r s') :
    ∃ phyEnd s₁, mmPaEnd mach s = .ok phyEnd s ∧ initDirectAccess im s = .ok () s₁ ∧
      bootstrapUnmapLoop im mach phyEnd n (firstPage mach) s₁ = .ok r s' := by
  unfold mmPageBootstrapUnmap at hrun
  obtain ⟨phyEnd, t₁, h1, hrun⟩ := Exec.bind_eq_ok.1 hrun
  obtain ⟨_, t₂, h2, hrun⟩ := Exec.bind_eq_ok.1 hrun
  obtain ⟨_, t₃, h3, hrun⟩ := Exec.bind_eq_ok.1 hrun
  obtain ⟨_, t₄, h4, hrun⟩ := Exec.bind_eq_ok.1 hrun
  obtain ⟨page, t₅, h5, hrun⟩ := Exec.bind_eq_ok.1 hrun
  obtain rfl : t₁ = s := (mmPaEnd_ok h1).1
  obtain rfl : t₂ = t₁ := (kernelAssert_ok h2).2
  obtain rfl : t₄ = t₃ := (kernelAssert_ok h4).2
  rw [mmAlignUp_firstPage hk] at h5
  cases h5
  exact ⟨phyEnd, t₄, h1, h3, hrun⟩

/-- The part of `mm_page_bootstrap` that the pool comes from, when it returns. -/
theorem mmPageBootstrapUnmap_ok (h : Identity im s e) (hk : KernelPlaced im mach) (hpc : PciePlaced mach) (hap : Apart im s)
    {n r : Nat} (hrun : mmPageBootstrapUnmap im mach n (frameBootstrapped s) = .ok r s') :
    ∃ s₁ F phyEnd, Unmapping im mach s₁ e r s' F ∧ (∀ t, IsTable im s₁ t → t = im.tab4 ∨ (∃ i < 3, t = directTab im i) ∨
      (IsTable im s t ∧ ∃ k < s.earlyFrameCount, t = poolFrame im k)) ∧
      (∃ t, mmPaEnd mach s = .ok phyEnd t) ∧ phyEnd ≤ r + 2097152 := by
  obtain ⟨phyEnd, t, h1, h3, hloop⟩ := mmPageBootstrapUnmap_cases hk hrun
  obtain ⟨s₁, hinit, hun, htab⟩ := h.begin hk hap (initDirectAccess_array h3)
  rw [h3] at hinit
  cases hinit
  obtain ⟨-, -, hfirst⟩ := firstPage_spec hk
  obtain ⟨F, hun', hend⟩ := bootstrapUnmapLoop_ok hpc (fun t ht => hk.table_lt h htab ht) h.align h.le hfirst hun hloop
  refine ⟨_, F, phyEnd, hun', htab, ?_, hend⟩
  unfold mmPaEnd at h1 ⊢
  cases hs : mach.secs.getLast? with
  | none => rw [hs] at h1; cases h1
  | some sec => rw [hs] at h1; cases h1; exact ⟨s, rfl⟩

/-- The frames on the list are pages. -/
theorem Unmapping.isPage {s₁ : PageState} (h : Unmapping im mach s₁ e u s F) (hk : KernelPlaced im mach) (hu : u ≤ 2 ^ 44)
    (htab : ∀ t, IsTable im s₁ t → t = im.tab4 ∨ (∃ i < 3, t = directTab im i) ∨ ∃ k < earlyFrameCap, t = poolFrame im k) :
    ∀ f ∈ F, IsPage f := by
  intro f hf
  rcases h.free f hf with ht | ⟨p, hp, k, hk', rfl⟩
  · rcases htab f ht with rfl | ⟨i, hi, rfl⟩ | ⟨k, hk', rfl⟩
    · exact hk.tab4.1
    · exact (hk.direct i hi).1.1
    · exact (hk.pool k hk').1.1
  · have h1 := hp.align
    have h2 := hp.lt
    unfold IsPage pageSize4K va48LowEnd
    omega

/-- `mm_page_bootstrap` gets through its loop if the identity map reaches the last page below the end. -/
theorem mmPageBootstrapUnmap_run (h : Identity im s e) (hk : KernelPlaced im mach) (hap : Apart im s)
    (harray : im.directTabArray % pageSize4K = 0) {phyEnd : Nat} (hend : ∀ s, mmPaEnd mach s = .ok phyEnd s)
    (h1 : mach.kernelStart < mach.kernelEnd) (h2 : mach.fb % pageSize2M = 0) (h3 : firstPage mach ≤ e) (h4 : phyEnd ≤ e + 2097152) :
    ∃ r s', mmPageBootstrapUnmap im mach (e / 2097152 + 1) (frameBootstrapped s) = .ok r s' := by
  obtain ⟨s₁, hinit, hun, htab⟩ := h.begin hk hap harray
  have hrounds : e ≤ firstPage mach + e / 2097152 * 2097152 := by
    have := h.align
    omega
  obtain ⟨r, s', hloop⟩ :=
    bootstrapUnmapLoop_run (fun t ht => hk.table_lt h htab ht) h.align h.le h4 (n := e / 2097152) hun h3 hrounds
  refine ⟨r, s', ?_⟩
  unfold mmPageBootstrapUnmap
  rw [Exec.bind_ok (hend _), Exec.bind_ok (kernelAssert_pos h1 _ _), Exec.bind_ok hinit, Exec.bind_ok (kernelAssert_pos h2 _ _),
    Exec.bind_ok (mmAlignUp_firstPage hk _)]
  exact hloop

/-! ## The pool -/

/-- No range of the machine ends past the address space, and the frame buffer starts a 2M page. -/
structure MachineOk (mach : Machine) : Prop extends PciePlaced mach where
  secs : ∀ sec ∈ mach.secs, sec.base + sec.len < 2 ^ 64
  fb : mach.fb + mach.fbLen < 2 ^ 64
  fb_align : mach.fb % pageSize2M = 0

/-- The boot up to the end of the loop of `mm_page_bootstrap`: it is through with the early stage in `s`, and with the
loop in `s'`. -/
structure Boots (im : Image) (mach : Machine) (s s' : PageState) : Prop where
  early : ∃ garbage n e s₀, s₀.isEarlyStage = true ∧ s₀.earlyFrameCount = 0 ∧ mmPageEarlyBootstrap im mach garbage n s₀ = .ok e s
  unmap : ∃ n r, (do mmFrameBootstrap; mmPageBootstrapUnmap im mach n : PageM Nat) s = .ok r s'

theorem MachineOk.freeFrame_iff (hm : MachineOk mach) {p : Nat} (hp : p < 2 ^ 50) : freeFrame mach p = true ↔
    (∃ sec ∈ mach.secs, sec.base ≤ p ∧ p + 2097152 < sec.base + sec.len) ∧
      (mach.fb + mach.fbLen < p ∨ 2 ^ 64 ≤ mach.fb + 2097152) := by
  have hfb := hm.fb
  have hnext : u64 (p + pageSize2M) = p + 2097152 := by unfold u64 pageSize2M; omega
  have hvalid : mmPaRangeValid mach p (p + 2097152) = true ↔
      ∃ sec ∈ mach.secs, sec.base ≤ p ∧ p + 2097152 < sec.base + sec.len := by
    unfold mmPaRangeValid
    rw [List.any_eq_true]
    refine exists_congr fun sec => and_congr_right fun hs => ?_
    rw [decide_eq_true_eq, u64_of_lt (hm.secs sec hs)]
  unfold freeFrame
  rw [hnext, Bool.and_eq_true, hvalid, decide_eq_true_eq, u64_of_lt hfb]
  refine and_congr_right fun _ => or_congr_right ?_
  unfold u64 pageSize2M
  omega

/-- What the loop has done when the boot is at its end: it went over every page up to `r`. -/
theorem Boots.spec (h : Boots im mach s s') (hk : KernelPlaced im mach) (hm : MachineOk mach) (hap : Apart im s) :
    ∃ e r s₁ F phyEnd, Unmapping im mach s₁ e r s' F ∧ (∀ t, IsTable im s₁ t → t < firstPage mach) ∧
      (∀ t, IsTable im s₁ t → t = im.tab4 ∨ (∃ i < 3, t = directTab im i) ∨
        (IsTable im s t ∧ ∃ k < s.earlyFrameCount, t = poolFrame im k)) ∧
      (∃ t, mmPaEnd mach s = .ok phyEnd t) ∧ phyEnd ≤ r + 2097152 ∧ r < 2 ^ 50 := by
  obtain ⟨garbage, n, e, s₀, hstage, hcount, hearly⟩ := h.early
  obtain ⟨n', r, hrun⟩ := h.unmap
  have hid := mmPageEarlyBootstrap_ok hk.toEarlyPlaced hstage hcount hearly
  obtain ⟨_, s₂, hboot, hrun⟩ := Exec.bind_eq_ok.1 hrun
  have hs₂ : s₂ = frameBootstrapped s := by
    unfold mmFrameBootstrap at hboot
    rw [Exec.bind_ok (Exec.get_run s), Exec.bind_ok (kernelAssert_pos hid.stage _ s)] at hboot
    cases hboot
    rfl
  rw [hs₂] at hrun
  obtain ⟨s₁, F, phyEnd, hun, htab, hend, hle⟩ := mmPageBootstrapUnmap_ok hid hk hm.toPciePlaced hap hrun
  have h1 := hun.le hm.toPciePlaced hid.align
  have h2 := hid.le
  have h3 := (firstPage_spec hk).2.2
  exact ⟨e, r, s₁, F, phyEnd, hun, fun t ht => hk.table_lt hid htab ht, htab, hend, hle, by omega⟩

theorem Direct.isTable {m : Words} (h : Direct im m) {i : Nat} (hi : i < 3) : ∃ q, Page.node im m q = some (directTab im i) := by
  obtain ⟨h2, h1, h0⟩ := h.node
  interval_cases i
  · exact ⟨_, h0⟩
  · exact ⟨_, h1⟩
  · exact ⟨_, h2⟩

/-- The frame `[f, f + 4K)` is usable memory. -/
structure UsableFrame (mach : Machine) (f : Nat) : Prop where
  section_ : ∃ sec ∈ mach.secs, sec.base ≤ f ∧ f + pageSize4K ≤ sec.base + sec.len
  kernel : firstPage mach ≤ f
  frameBuffer : f + pageSize4K ≤ mach.fb ∨ mach.fb + mach.fbLen ≤ f
  pcie : ∀ g ∈ mach.pcieCfg, f + pageSize4K ≤ g ∨ g + dPcieGroupGetCfgLen ≤ f

theorem Freed.usable {u p k : Nat} (h : Freed mach u p) (hm : MachineOk mach) (hu : u < 2 ^ 50) (hk : k < 512) :
    UsableFrame mach (p + 4096 * k) := by
  have hal := h.align
  have hfirst := h.first
  have hlt := h.lt
  obtain ⟨⟨sec, hs, hlo, hhi⟩, hfb⟩ := (hm.freeFrame_iff (by omega)).1 h.free
  refine ⟨⟨sec, hs, by omega, by unfold pageSize4K; omega⟩, by omega, ?_, fun g hg => ?_⟩
  · have := hm.fb
    unfold pageSize4K
    omega
  · have hout : ¬ (g ≤ p ∧ p < g + 2 ^ 28) := by
      intro hin
      have := hm.toPciePlaced.inside_iff.2 ⟨g, hg, hin⟩
      rw [h.outside] at this
      cases this
    have halign := hm.align g hg
    rw [show dPcieGroupGetCfgLen = 2 ^ 28 from rfl]
    unfold pageSize4K
    omega

/-! ## A machine -/

/-- 96M of memory, with the kernel in `[1M, 80M)`, and a frame buffer far above. -/
def machine₀ : Machine := ⟨0x100000, 0x5000000, [⟨0, 0x6000000⟩], 0x80000000, 0x800000, [0xb0000000]⟩

theorem machine₀_ok : MachineOk machine₀ := by
  refine ⟨⟨by decide, by decide, by decide⟩, by decide, by decide, by decide⟩

/-- A kernel in the range of this machine that holds all tables. -/
theorem machine₀_placed (h1 : 0x100000 ≤ im.tab4) (h2 : im.tab4 < 0x200000) (h3 : im.directTabSpace = 0x200000)
    (h4 : 0x200000 < im.earlyFramePool) (h5 : im.earlyFramePool ≤ 0x1000000) : KernelPlaced im machine₀ := by
  have hal := im.tab4_align
  have hal' := im.pool_align
  have hpool : ∀ k < earlyFrameCap, 0x200000 < poolFrame im k ∧ poolFrame im k < 0x5000000 ∧ poolFrame im k % 4096 = 0 := by
    intro k hk
    unfold earlyFrameCap at hk
    unfold pageSize4K at hal'
    unfold poolFrame pageSize4K
    omega
  have hdirect : ∀ i < 3, directTab im i = 0x200000 + i * 32768 := by
    intro i _
    unfold directTab pageSize4K tabEntryLen
    rw [h3]
    omega
  unfold pageSize4K at hal
  refine ⟨⟨?_, fun k hk => ?_⟩, h1, by decide, ?_, fun k hk => (hpool k hk).2.1, fun i hi => ?_⟩
  · unfold LowFrame IsPage pageSize4K va48LowEnd
    omega
  · have := hpool k hk
    unfold LowFrame IsPage pageSize4K va48LowEnd
    omega
  · show im.tab4 < 0x5000000
    omega
  · rw [hdirect i hi]
    show _ ∧ 0x200000 + i * 32768 < 0x5000000 ∧ _
    unfold LowFrame IsPage pageSize4K va48LowEnd
    omega

theorem image₀_placed : KernelPlaced image₀ machine₀ := machine₀_placed (by decide) (by decide) rfl (by decide) (by decide)

theorem image₀_apart (s : PageState) : Apart image₀ s := by
  intro i hi k hk he
  unfold directTab poolFrame image₀ pageSize4K tabEntryLen at he
  interval_cases i <;> simp at he <;> omega

/-- The early stage of the machine needs two tables. -/
theorem machine₀_early (hpl : EarlyPlaced im) : ∃ e s, mmPageEarlyBootstrap im machine₀ (fun _ => true) 513
    { early₀ with isEarlyStage := true } = .ok e s ∧ 0x6000000 ≤ e + 2097152 ∧ s.earlyFrameCount ≤ 2 := by
  have hend : ∀ s, mmPaEnd machine₀ s = .ok 0x6000000 s := fun _ => rfl
  obtain ⟨e, s, hearly, hle, -, htwo⟩ := mmPageEarlyBootstrap_run hpl (s := { early₀ with isEarlyStage := true }) rfl rfl
    (fun _ => rfl) hend (by decide) (by decide) (by decide) (by norm_num)
  exact ⟨e, s, hearly, hle, htwo⟩

/-- A machine with this kernel boots if it has a page of memory behind it. -/
theorem exists_boots (hk : KernelPlaced image₀ mach) (phyEnd : Nat) (hstart : ∀ s, mmPaStart mach s = .ok 0 s)
    (hend : ∀ s, mmPaEnd mach s = .ok phyEnd s) (h1 : 0 < mach.kernelStart) (h2 : mach.kernelStart < mach.kernelEnd)
    (h3 : mach.fb % pageSize2M = 0) (h4 : firstPage mach + 2097152 ≤ phyEnd) (h5 : phyEnd ≤ 2 ^ 30) :
    ∃ s s', Boots image₀ mach s s' := by
  have hlt : mach.kernelEnd < phyEnd := by
    unfold firstPage at h4
    omega
  obtain ⟨e, s, hearly, hle, -⟩ := mmPageEarlyBootstrap_run hk.toEarlyPlaced (s := { early₀ with isEarlyStage := true }) rfl rfl
    hstart hend h1 hlt h2 h5
  have hid := mmPageEarlyBootstrap_ok hk.toEarlyPlaced rfl rfl hearly
  obtain ⟨r, s', hrun⟩ := mmPageBootstrapUnmap_run hid hk (image₀_apart s) rfl hend h2 h3
    (show firstPage mach ≤ e by omega) hle
  have hboot : mmFrameBootstrap s = .ok () (frameBootstrapped s) := by
    unfold mmFrameBootstrap
    rw [Exec.bind_ok (Exec.get_run s), Exec.bind_ok (kernelAssert_pos hid.stage _ s)]
    rfl
  refine ⟨s, s', ⟨_, _, e, _, rfl, rfl, hearly⟩, e / 2097152 + 1, r, ?_⟩
  rw [Exec.bind_ok hboot]
  exact hrun

theorem machine₀_boots : ∃ s s', Boots image₀ machine₀ s s' :=
  exists_boots image₀_placed 0x6000000 (fun _ => rfl) (fun _ => rfl) (by decide) (by decide) (by decide) (by decide) (by decide)

/-- The same kernel with 1M of frame buffer right behind it, and 32M of memory behind the buffer. -/
def machine₂ : Machine := ⟨0x100000, 0x5000000, [⟨0, 0x5000000⟩, ⟨0x5200000, 0x2000000⟩], 0x5000000, 0x100000, [0xb0000000]⟩

theorem machine₂_ok : MachineOk machine₂ := ⟨⟨by decide, by decide, by decide⟩, by decide, by decide, by decide⟩

theorem image₀_placed₂ : KernelPlaced image₀ machine₂ :=
  ⟨image₀_placed.toEarlyPlaced, by decide, by decide, by decide, image₀_placed.pool_lt, image₀_placed.direct⟩

theorem machine₂_boots : ∃ s s', Boots image₀ machine₂ s s' :=
  exists_boots image₀_placed₂ 0x7200000 (fun _ => rfl) (fun _ => rfl) (by decide) (by decide) (by decide) (by decide) (by decide)

/-! ## What is on the list -/

/-- The 2M page `[P, P + 2M)` is usable memory below the physical end. -/
structure UsablePage (mach : Machine) (phyEnd P : Nat) : Prop where
  align : P % pageSize2M = 0
  kernel : firstPage mach ≤ P
  below : P + pageSize2M < phyEnd
  valid : mmPaRangeValid mach P (P + pageSize2M) = true
  frameBuffer : ∀ a, P ≤ a → a < P + pageSize2M → ¬ (mach.fb ≤ a ∧ a < mach.fb + mach.fbLen)
  pcie : ∀ a, P ≤ a → a < P + pageSize2M → ∀ g ∈ mach.pcieCfg, ¬ (g ≤ a ∧ a < g + dPcieGroupGetCfgLen)

/-- The frames of a usable page are on the list if the page is behind the frame buffer, and otherwise none of them is, unless
the sum of the buffer's address and 2M wraps. -/
theorem Boots.mem_iff (hb : Boots im mach s s') (hk : KernelPlaced im mach) (hm : MachineOk mach) (hap : Apart im s)
    (hF : Chain 0 s'.mem s'.freeHead F) {phyEnd : Nat} (hend : mmPaEnd mach s = .ok phyEnd s) {P : Nat}
    (hP : UsablePage mach phyEnd P) {k : Nat} (hk' : k < 512) :
    P + 4096 * k ∈ F ↔ mach.fb + mach.fbLen < P ∨ 2 ^ 64 ≤ mach.fb + pageSize2M := by
  obtain ⟨e, r, s₁, F', phyEnd', hun, htab, -, ⟨t, hend'⟩, hle, hr⟩ := hb.spec hk hm hap
  rw [hend] at hend'
  cases hend'
  obtain rfl : F = F' := hF.unique hun.inv.chain
  have hal := hP.align
  have hlt := hP.below
  have hfirst := hP.kernel
  have hvalid := hP.valid
  unfold pageSize2M at hal hlt hvalid
  have hout : bootstrapPaInsidePcieCfgSpace mach P = false := by
    by_contra hin
    obtain ⟨g, hg, hin⟩ := hm.toPciePlaced.inside_iff.1 (Bool.not_eq_false _ ▸ hin)
    exact hP.pcie P le_rfl (by unfold pageSize2M; omega) g hg hin
  have hfree : freeFrame mach P = true ↔ mach.fb + mach.fbLen < P ∨ 2 ^ 64 ≤ mach.fb + pageSize2M := by
    rw [hm.freeFrame_iff (by omega), and_iff_right]
    · rfl
    · unfold mmPaRangeValid at hvalid
      obtain ⟨sec, hs, hsec⟩ := List.any_eq_true.1 hvalid
      rw [decide_eq_true_eq, u64_of_lt (hm.secs sec hs)] at hsec
      exact ⟨sec, hs, hsec⟩
  rw [← hfree]
  constructor
  · intro hmem
    rcases hun.free _ hmem with ht | ⟨p, hp, k', hk'', heq⟩
    · have := htab _ ht
      omega
    · have := hp.align
      obtain rfl : P = p := by omega
      exact hp.free
  · exact fun hf => hun.all P ⟨hal, hfirst, by omega, hout, hf⟩ k hk'

/-- The first page behind the frame buffer. -/
theorem machine₂_usable : UsablePage machine₂ 0x7200000 0x5200000 := by
  refine ⟨by decide, by decide, by decide, by decide, fun a h1 h2 => ?_, fun a h1 h2 g hg => ?_⟩
  · unfold machine₂
    simp only
    omega
  · obtain rfl : g = 0xb0000000 := List.mem_singleton.1 hg
    unfold pageSize2M at h2
    omega

/-- The frames on the list after the loop are there once. Each is a table of the early stage that is no table any more, or a
frame of usable memory. -/
theorem boot_pool_usable (hk : KernelPlaced im mach) (hm : MachineOk mach) (hap : Apart im s) (hb : Boots im mach s s') :
    ∃ F, Chain 0 s'.mem s'.freeHead F ∧ s'.freeCount = F.length ∧ F.Nodup ∧ ∀ f ∈ F,
      (IsTable im s f ∧ ¬ IsTable im s' f ∧ ∃ k < s.earlyFrameCount, f = poolFrame im k) ∨ UsableFrame mach f := by
  obtain ⟨e, r, s₁, F, phyEnd, hun, -, htab, -, -, hr⟩ := hb.spec hk hm hap
  refine ⟨F, hun.inv.chain, hun.inv.count, hun.inv.nodup, fun f hf => ?_⟩
  have hnot : ¬ IsTable im s' f := fun ⟨q, hq⟩ => hun.inv.notTable f hf q hq
  rcases hun.free f hf with ht | ⟨p, hp, k, hk', rfl⟩
  · rcases htab f ht with rfl | ⟨i, hi, rfl⟩ | ⟨ht, hpool⟩
    · exact absurd ⟨[], rfl⟩ hnot
    · exact absurd ⟨_, (hun.inv.tree.direct.isTable hi).choose_spec⟩ hnot
    · exact .inl ⟨ht, hnot, hpool⟩
  · exact .inr (hp.usable hm hr hk')

theorem boot_pool_usable_machine₂ : ∃ s s' F, Boots image₀ machine₂ s s' ∧ Chain 0 s'.mem s'.freeHead F ∧ F.Nodup ∧
    (∀ k < 512, 0x5200000 + 4096 * k ∈ F) ∧ ∀ f ∈ F,
      (IsTable image₀ s f ∧ ¬ IsTable image₀ s' f ∧ ∃ k < s.earlyFrameCount, f = poolFrame image₀ k) ∨ UsableFrame machine₂ f := by
  obtain ⟨s, s', hb⟩ := machine₂_boots
  obtain ⟨F, h1, -, h2, h3⟩ := boot_pool_usable image₀_placed₂ machine₂_ok (image₀_apart s) hb
  refine ⟨s, s', F, hb, h1, h2, fun k hk => ?_, h3⟩
  exact (hb.mem_iff image₀_placed₂ machine₂_ok (image₀_apart s) h1 rfl machine₂_usable hk).2 (.inl (by decide))

theorem machine₀_usable : UsablePage machine₀ 0x6000000 0x5200000 := by
  refine ⟨by decide, by decide, by decide, by decide, fun a h1 h2 => ?_, fun a h1 h2 g hg => ?_⟩
  · unfold machine₀
    unfold pageSize2M at h2
    simp only
    omega
  · obtain rfl : g = 0xb0000000 := List.mem_singleton.1 hg
    unfold pageSize2M at h2
    omega

/-- Every usable page gets on the list, frame by frame, if and only if all of them lie behind the end of the frame buffer (or
the buffer is the last 2M page of the address space). -/
theorem boot_pool_complete_iff (hk : KernelPlaced im mach) (hm : MachineOk mach) (hap : Apart im s) (hb : Boots im mach s s')
    (hF : Chain 0 s'.mem s'.freeHead F) {phyEnd : Nat} (hend : mmPaEnd mach s = .ok phyEnd s) :
    (∀ P, UsablePage mach phyEnd P → ∀ k < 512, P + 4096 * k ∈ F) ↔
      ∀ P, UsablePage mach phyEnd P → mach.fb + mach.fbLen < P ∨ 2 ^ 64 ≤ mach.fb + pageSize2M := by
  constructor
  · exact fun h P hP => (hb.mem_iff hk hm hap hF hend hP (by omega)).1 (h P hP 0 (by omega))
  · exact fun h P hP k hk' => (hb.mem_iff hk hm hap hF hend hP hk').2 (h P hP)

theorem boot_pool_complete_iff_machine₂ : ∃ s s' F, Boots image₀ machine₂ s s' ∧ Chain 0 s'.mem s'.freeHead F ∧
    UsablePage machine₂ 0x7200000 0x5200000 ∧ ∀ P, UsablePage machine₂ 0x7200000 P → ∀ k < 512, P + 4096 * k ∈ F := by
  obtain ⟨s, s', hb⟩ := machine₂_boots
  obtain ⟨e, r, s₁, F, phyEnd, hun, -⟩ := hb.spec image₀_placed₂ machine₂_ok (image₀_apart s)
  have hend : mmPaEnd machine₂ s = .ok 0x7200000 s := rfl
  refine ⟨s, s', F, hb, hun.inv.chain, machine₂_usable, ?_⟩
  exact (boot_pool_complete_iff image₀_placed₂ machine₂_ok (image₀_apart s) hb hun.inv.chain hend).2 fun P hP =>
    .inl (lt_of_lt_of_le (by decide) hP.kernel)

/-- The memory between the kernel and the frame buffer is lost. -/
theorem boot_pool_loses_page : ∃ s s' F, KernelPlaced image₀ machine₀ ∧ MachineOk machine₀ ∧ Apart image₀ s ∧
    Boots image₀ machine₀ s s' ∧ Chain 0 s'.mem s'.freeHead F ∧ mmPaEnd machine₀ s = .ok 0x6000000 s ∧
    UsablePage machine₀ 0x6000000 0x5200000 ∧ ∀ k < 512, 0x5200000 + 4096 * k ∉ F := by
  obtain ⟨s, s', hb⟩ := machine₀_boots
  obtain ⟨e, r, s₁, F, phyEnd, hun, -⟩ := hb.spec image₀_placed machine₀_ok (image₀_apart s)
  refine ⟨s, s', F, image₀_placed, machine₀_ok, image₀_apart s, hb, hun.inv.chain, rfl, machine₀_usable, fun k hk hmem => ?_⟩
  exact absurd ((hb.mem_iff image₀_placed machine₀_ok (image₀_apart s) hun.inv.chain rfl machine₀_usable hk).1 hmem) (by decide)

end Cing.Page
