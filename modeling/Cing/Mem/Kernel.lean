/-
The map `mem_page_bootstrap_2` switches to. The kernel is mapped from address 0 on, and the number of its
pages is the end address divided by the page size. An end within a page would need one page more; the
assertion that was meant to exclude it checks the start a second time.
-/
import Cing.Mem.Ranges

namespace Cing.Mem

open Exec Page

/-! ## What the map is for -/

/-- The kernel is mapped to itself, the frame buffer at `VA_48_FRAME_BUFFER`, and nothing else is mapped. -/
structure KernelMap (m : Words) (root kernEnd fb fbLen : Nat) : Prop where
  kernel : ∀ a < kernEnd, translate m root a = some a
  frameBuffer : ∀ i < fbLen, translate m root (va48FrameBuffer + i) = some (fb + i)
  other : ∀ va, (∀ a < kernEnd, ¬ SamePage va a) → (∀ i < fbLen, ¬ SamePage va (va48FrameBuffer + i)) → translate m root va = none

/-- What the assertions of `mem_page_bootstrap_2` and the functions it calls accept. -/
structure KernelAccepted (mach : MemMachine) (s : MemState) : Prop where
  stage : s.bootStage < memBootstrapStageFinish
  room : s.paListBootstrapNext + 40 ≤ paListCapBootstrap
  kernEnd_lt : mach.kernEndPa < 2 ^ 64
  fb_lt : s.fb < 2 ^ 64
  kernel : ∀ i < mach.kernEndPa / pageSize4K, Target (i * pageSize4K)
  fb_align : s.fb % pageSize4K = 0
  fbLen_align : s.fbLen % pageSize4K = 0
  fbLen_lt : s.fbLen < va48FrameBufferEnd - va48FrameBuffer
  fb : ∀ i < s.fbLen / pageSize4K, Target (u64 (s.fb + i * pageSize4K))

/-- The tables of the kernel and of the frame buffer. -/
def kernelPaths (mach : MemMachine) (s : MemState) : Finset (List (Fin 512)) :=
  paths 0 (mach.kernEndPa / pageSize4K) ∪ paths va48FrameBuffer (s.fbLen / pageSize4K)

/-- What `mem_page_bootstrap_2` leaves: the leaves of whole pages of the kernel, and those of the frame buffer. -/
structure KernelLeaves (m : Words) (root n fb k : Nat) : Prop where
  kernel : ∀ j < n, ∀ va, SamePage va (j * pageSize4K) → lookup m root va = some ⟨j * pageSize4K, true, false⟩
  frameBuffer : ∀ j < k, ∀ va, SamePage va (va48FrameBuffer + j * pageSize4K) →
    lookup m root va = some ⟨hwPadd (u64 (fb + j * pageSize4K) + 3), true, false⟩
  other : ∀ va, (∀ j < n, ¬ SamePage va (j * pageSize4K)) → (∀ j < k, ¬ SamePage va (va48FrameBuffer + j * pageSize4K)) →
    lookup m root va = none

section Leaves

variable {m : Words} {root kernEnd fb fbLen va base : Nat}

theorem va48FrameBuffer_eq : va48FrameBuffer = 2 ^ 64 - 2 ^ 47 + 256 * 4096 := by decide

theorem translate_of_lookup (h : lookup m root va = some ⟨base, true, false⟩) : translate m root va = some (base + va % 4096) := by
  unfold Page.translate
  rw [h]
  rfl

theorem translate_of_none (h : lookup m root va = none) : translate m root va = none := by
  unfold Page.translate
  rw [h]
  rfl

theorem hwPadd_lt (e : Nat) : hwPadd e < 2 ^ 52 := by
  unfold hwPadd
  exact Nat.and_le_right.trans_lt (by norm_num)

/-- The last page of a kernel that ends within it has no leaf. -/
theorem KernelLeaves.last_none {n k : Nat} (h : KernelLeaves m root n fb k) (hn : n ≤ 2 ^ 35) (hk : k ≤ 3840) :
    translate m root (n * 4096) = none := by
  refine translate_of_none (h.other _ (fun j hj hsame => ?_) fun j hj hsame => ?_)
  · unfold SamePage pageSize4K at hsame
    omega
  · unfold SamePage at hsame
    rw [va48FrameBuffer_eq] at hsame
    unfold pageSize4K at hsame
    omega

/-- The leaves are the map of the kernel exactly if the kernel ends with a page and the frame buffer is where the
hardware can address it. -/
theorem KernelLeaves.map_iff (h : KernelLeaves m root (kernEnd / pageSize4K) fb (fbLen / pageSize4K))
    (hn : kernEnd / pageSize4K ≤ 2 ^ 35) (hk : fbLen / pageSize4K ≤ 3840) (hlen : fbLen % pageSize4K = 0)
    (htarget : ∀ i < fbLen / pageSize4K, Target (u64 (fb + i * pageSize4K))) (hfb : fb < 2 ^ 64) :
    KernelMap m root kernEnd fb fbLen ↔ kernEnd % pageSize4K = 0 ∧ (fbLen = 0 ∨ fb < 2 ^ 52) := by
  have hnone := h.last_none hn hk
  have hbuf := va48FrameBuffer_eq
  unfold pageSize4K at hn hk hlen hnone ⊢
  constructor
  · intro hmap
    constructor
    · by_contra hend
      rw [hmap.kernel (kernEnd / 4096 * 4096) (by omega)] at hnone
      cases hnone
    · by_cases hz : fbLen = 0
      · exact .inl hz
      · right
        have hfirst := h.frameBuffer 0 (by unfold pageSize4K; omega) (va48FrameBuffer + 0)
          (by rw [Nat.zero_mul]; exact SamePage.refl _)
        have hall := hmap.frameBuffer 0 (by omega)
        rw [translate_of_lookup hfirst, Option.some.injEq] at hall
        have hlt := hwPadd_lt (u64 (fb + 0 * pageSize4K) + 3)
        omega
  · rintro ⟨hend, hlow⟩
    have hpage : ∀ j < fbLen / 4096, u64 (fb + j * 4096) = fb + j * 4096 ∧ IsPage (fb + j * 4096) := by
      intro j hj
      have hu : u64 (fb + j * 4096) = fb + j * 4096 := u64_of_lt (by omega)
      obtain ⟨h1, h2⟩ := htarget j hj
      unfold pageSize4K at h1 h2
      rw [hu] at h1 h2
      refine ⟨hu, h1, h2.resolve_right fun hge => ?_⟩
      unfold va48HighStart at hge
      omega
    refine ⟨fun a ha => ?_, fun i hi => ?_, fun va h1 h2 => ?_⟩
    · have hl := h.kernel (a / 4096) (by unfold pageSize4K; omega) a (by unfold SamePage pageSize4K; omega)
      rw [translate_of_lookup hl, Option.some.injEq]
      unfold pageSize4K
      omega
    · obtain ⟨hu, hp⟩ := hpage (i / 4096) (by omega)
      have hl := h.frameBuffer (i / 4096) (by unfold pageSize4K; omega) (va48FrameBuffer + i) (by
        unfold SamePage pageSize4K
        omega)
      unfold pageSize4K at hl
      rw [hu, (present_value hp).2.2.2] at hl
      rw [translate_of_lookup hl, Option.some.injEq]
      omega
    · refine translate_of_none (h.other va (fun j hj => ?_) fun j hj => ?_)
      · exact h1 _ (by unfold pageSize4K at *; omega)
      · exact h2 _ (by unfold pageSize4K at *; omega)

end Leaves

/-! ## mem_page_bootstrap_2 -/

/-- A list with one range. -/
theorem PaList.pages_one {list : PaList} (h : list.n = 1) : list.pages = list.rangePages 0 := by
  rw [pages, h]
  simp

section Run

variable {dbg : Bool} {im : MemImage} {mach : MemMachine} {s s' : MemState} {k : Nat}

/-- The two ranges of pages do not meet. -/
theorem kernel_apart {n m : Nat} (hn : n ≤ 2 ^ 35) (hm : m ≤ 3840) :
    Apart 0 n ∧ Apart va48FrameBuffer m ∧ ∀ i < n, ∀ j < m, ¬ SamePage (va48FrameBuffer + j * pageSize4K) (i * pageSize4K) := by
  have hbuf := va48FrameBuffer_eq
  refine ⟨fun i hi j hj hsame => ?_, fun i hi j hj hsame => ?_, fun i hi j hj hsame => ?_⟩ <;>
    unfold SamePage pageSize4K at hsame <;> omega

theorem KernelAccepted.pages_le (h : KernelAccepted mach s) :
    mach.kernEndPa / pageSize4K ≤ 2 ^ 35 ∧ s.fbLen / pageSize4K ≤ 3840 := by
  constructor
  · by_contra hlt
    have hp := (h.kernel (2 ^ 35) (by omega)).2
    revert hp
    decide
  · have := h.fbLen_lt
    rw [show va48FrameBufferEnd - va48FrameBuffer = 15728640 by decide] at this
    unfold pageSize4K
    omega

theorem paListNewBootstrap_run (hstage : s.bootStage < memBootstrapStageFinish)
    (hroom : s.paListBootstrapNext + 40 ≤ paListCapBootstrap) :
    paListNewBootstrap 1 s = .ok ⟨1, fun _ => 0, fun _ => 0⟩ { s with paListBootstrapNext := s.paListBootstrapNext + 40 } := by
  unfold paListNewBootstrap
  rw [bind_ok (get_run s), bind_ok (kernelAssert_pos hstage _ s), bind_ok (kernelAssert_pos (by omega) _ s)]
  rw [bind_ok (modify_run _ s), bind_ok (get_run _), bind_ok (kernelAssert_pos (by simp only; omega) _ _)]
  rw [bind_ok (modify_run _ _), bind_ok (get_run _), bind_ok (kernelAssert_pos (by simp only; omega) _ _)]
  rw [bind_ok (modify_run _ _), bind_ok (get_run _), bind_ok (kernelAssert_pos (by simp only; omega) _ _)]
  rfl

theorem paListSetRange_run (dbg : Bool) {list : PaList} (hn : list.n = 1) {pa : Nat} (hpa : pa % pageSize4K = 0)
    (nPg : Nat) (s : MemState) :
    ∃ list', paListSetRange dbg list 0 pa nPg s = .ok list' s ∧ list'.n = 1 ∧ list'.pa 0 = pa ∧ list'.nPg 0 = nPg := by
  have hal : memAlignCheck pa pageSize4K = true := decide_eq_true hpa
  refine ⟨{ list with pa := Function.update list.pa 0 pa, nPg := Function.update list.nPg 0 nPg }, ?_, hn,
    Function.update_self 0 pa list.pa, Function.update_self 0 nPg list.nPg⟩
  unfold paListSetRange
  rw [bind_ok (kernelAssertD_pos (by omega) dbg _ s), bind_ok (kernelAssertD_pos hal dbg _ s)]
  rfl

/-- Mapping one range. -/
theorem mapImpl_range (dbg : Bool) {list : PaList} {va pa n : Nat} (h : Tree im s) (hva : va % pageSize4K = 0)
    (hpa : pa % pageSize4K = 0)
    (hlist : list.n = 1 ∧ list.pa 0 = pa ∧ list.nPg 0 = n) (hapart : Apart va n) {P : Finset (List (Fin 512))}
    (hP : paths va n ⊆ P) (htarget : ∀ i < n, Target (u64 (pa + i * pageSize4K)))
    (hnone : ∀ i < n, lookup s.mem im.tab4 (va + i * pageSize4K) = none) (hneed : need im s P ≤ frameCapBootstrap)
    (hk : n + 1 < k) :
    ∃ s', mapImpl dbg im k im.tab4 va n list s = .ok () s' ∧ Tree im s' ∧ need im s' P = need im s P ∧
      s'.fb = s.fb ∧ s'.fbLen = s.fbLen ∧
      (∀ j < n, ∀ va', SamePage va' (va + j * pageSize4K) →
        lookup s'.mem im.tab4 va' = some ⟨hwPadd (u64 (pa + j * pageSize4K) + 3), true, false⟩) ∧
      ∀ va', (∀ j < n, ¬ SamePage va' (va + j * pageSize4K)) → lookup s'.mem im.tab4 va' = lookup s.mem im.tab4 va' := by
  obtain ⟨h1, rfl, rfl⟩ := hlist
  have hpages : list.pages = list.rangePages 0 := PaList.pages_one h1
  have hlen : list.pages.length = list.nPg 0 := by rw [hpages, list.rangePages_length]
  have hal : list.Aligned := by
    intro r hr _
    obtain rfl : r = 0 := by omega
    exact hpa
  have hmem : ∀ pa ∈ list.pages, Target pa := by
    intro pa hpa
    rw [hpages] at hpa
    obtain ⟨i, hi, rfl⟩ := List.mem_map.1 hpa
    exact htarget i (List.mem_range.1 hi)
  obtain ⟨s', hrun, hm, hsame⟩ := mapImpl_run dbg h hva hal hlen hapart hP hmem hnone hneed (by omega : _ < k)
  refine ⟨s', hrun, hm.tree, hsame, hm.fb.1, hm.fb.2, fun j hj va' hva' => ?_, fun va' hva' => hm.other va' fun j hj => ?_⟩
  · refine hm.here (j := j) ?_ va' (by rw [Nat.zero_add]; exact hva')
    rw [hpages, PaList.rangePages, List.getElem?_map, List.getElem?_range hj]
    rfl
  · rw [Nat.zero_add]
    exact hva' j (by omega)

theorem memPageBootstrap2_run (dbg : Bool) (im : MemImage) (h : KernelAccepted mach s)
    (hframes : s.frameCountBootstrap + (kernelPaths mach s).card ≤ frameCapBootstrap)
    (hk : mach.kernEndPa / pageSize4K + 1 < k ∧ s.fbLen / pageSize4K + 1 < k) :
    ∃ s', memPageBootstrap2 dbg im mach k s = .ok () s' ∧
      KernelLeaves s'.mem im.tab4 (mach.kernEndPa / pageSize4K) s.fb (s.fbLen / pageSize4K) := by
  obtain ⟨hn, hm⟩ := h.pages_le
  obtain ⟨hap₁, hap₂, hap₃⟩ := kernel_apart hn hm
  obtain ⟨s₁, hzero, hc, hnext, hstage, hfb, hlen⟩ : ∃ s₁, Mem.tabZero im.tab4 s = .ok () s₁ ∧
      s₁.frameCountBootstrap = s.frameCountBootstrap ∧ s₁.paListBootstrapNext = s.paListBootstrapNext ∧
      s₁.bootStage = s.bootStage ∧ s₁.fb = s.fb ∧ s₁.fbLen = s.fbLen := ⟨_, rfl, rfl, rfl, rfl, rfl, rfl⟩
  obtain ⟨htree, -, hnone⟩ := Tree.zeroed ((Nat.le_add_right _ _).trans hframes) h.stage hzero
  have hnew := paListNewBootstrap_run (s := s₁) (hstage.trans_lt h.stage) (by rw [hnext]; exact h.room)
  generalize hs₂ : { s₁ with paListBootstrapNext := s₁.paListBootstrapNext + 40 } = s₂ at hnew
  have htree₂ : Tree im s₂ := by
    rw [← hs₂]
    exact ⟨htree.inj, htree.pool, htree.entry, htree.count, htree.stage⟩
  have hneed₂ : need im s₂ (kernelPaths mach s) ≤ frameCapBootstrap := by
    refine (need_le im s₂ _).trans ?_
    rw [← hs₂]
    exact (Nat.add_le_add_right hc.le _).trans hframes
  have hnone₂ : ∀ va, lookup s₂.mem im.tab4 va = none := by
    rw [← hs₂]
    exact hnone
  have hfb₂ : s₂.fb = s.fb ∧ s₂.fbLen = s.fbLen := by
    rw [← hs₂]
    exact ⟨hfb, hlen⟩
  obtain ⟨list₁, hset₁, hlist₁⟩ := paListSetRange_run dbg (show (⟨1, fun _ => 0, fun _ => 0⟩ : PaList).n = 1 from rfl)
    (Nat.zero_mod pageSize4K) (mach.kernEndPa / pageSize4K) s₂
  have htarget₁ : ∀ i < mach.kernEndPa / pageSize4K, u64 (0 + i * pageSize4K) = i * pageSize4K := by
    intro i hi
    rw [Nat.zero_add]
    exact u64_of_lt (by unfold pageSize4K; omega)
  obtain ⟨s₃, hmap₁, htree₃, hneed₃, hfb₃, hlen₃, hhere₁, hother₁⟩ := mapImpl_range dbg (k := k) htree₂
    (Nat.zero_mod _) (Nat.zero_mod _) hlist₁ hap₁ (Finset.subset_union_left : _ ⊆ kernelPaths mach s)
    (fun i hi => by rw [htarget₁ i hi]; exact h.kernel i hi) (fun i _ => hnone₂ _) hneed₂ hk.1
  -- the frame buffer, in the state of which only `fb` has changed
  have hfb₃ : s₃.fb = s.fb := hfb₃.trans hfb₂.1
  have hlen₃ : s₃.fbLen = s.fbLen := hlen₃.trans hfb₂.2
  obtain ⟨list₂, hset₂, hlist₂⟩ := paListSetRange_run dbg hlist₁.1 h.fb_align (s.fbLen / pageSize4K) s₃
  generalize hs₄ : { s₃ with fb := va48FrameBuffer } = s₄
  have htree₄ : Tree im s₄ := by
    rw [← hs₄]
    exact ⟨htree₃.inj, htree₃.pool, htree₃.entry, htree₃.count, htree₃.stage⟩
  have hneed₄ : need im s₄ (kernelPaths mach s) ≤ frameCapBootstrap := by
    rw [← hs₄]
    exact hneed₃.trans_le hneed₂
  have hmem₄ : s₄.mem = s₃.mem := by rw [← hs₄]
  have hnone₄ : ∀ j < s.fbLen / pageSize4K, lookup s₄.mem im.tab4 (va48FrameBuffer + j * pageSize4K) = none := by
    intro j hj
    rw [hmem₄, hother₁ _ fun i hi => by rw [Nat.zero_add]; exact hap₃ i hi j hj]
    exact hnone₂ _
  obtain ⟨s₅, hmap₂, -, -, -, -, hhere₂, hother₂⟩ := mapImpl_range dbg (k := k) htree₄
    (by decide : va48FrameBuffer % pageSize4K = 0) h.fb_align hlist₂ hap₂ (Finset.subset_union_right : _ ⊆ kernelPaths mach s) h.fb
    hnone₄ hneed₄ hk.2
  have hal : memAlignCheck im.tab4 pageSize4K = true := decide_eq_true im.tab4_placed.1
  refine ⟨s₅, ?_, fun j hj va hva => ?_, hhere₂, fun va h1 h2 => ?_⟩
  · have hsub : u64Sub mach.kernEndPa 0 = mach.kernEndPa := u64Sub_of_le (Nat.zero_le _) h.kernEnd_lt
    have hzal : memAlignCheck 0 pageSize4K = true := rfl
    have hfbal : memAlignCheck s₃.fb pageSize4K = true := decide_eq_true (by rw [hfb₃]; exact h.fb_align)
    unfold memPageBootstrap2
    simp only [hsub]
    rw [bind_ok hzero, bind_ok (kernelAssert_pos hzal _ s₁), bind_ok (kernelAssert_pos hzal _ s₁), bind_ok hnew, bind_ok hset₁,
      bind_ok hmap₁, bind_ok (get_run s₃), bind_ok (kernelAssert_pos hfbal _ s₃), hfb₃, hlen₃,
      bind_ok (kernelAssert_pos h.fbLen_align _ s₃), bind_ok (kernelAssert_pos h.fbLen_lt _ s₃), bind_ok hset₂,
      bind_ok (modify_run _ s₃), hs₄, bind_ok hmap₂]
    exact kernelAssert_pos hal _ s₅
  · -- a page of the kernel is none of the frame buffer
    have hl := hhere₁ j hj va (by rw [Nat.zero_add]; exact hva)
    have hpage : IsPage (j * pageSize4K) := by
      refine ⟨(h.kernel j hj).1, ?_⟩
      unfold va48LowEnd pageSize4K
      omega
    rw [htarget₁ j hj, (present_value hpage).2.2.2] at hl
    rw [hother₂ va fun i hi hsame => hap₃ j hj i hi (SamePage.trans (SamePage.symm hsame) hva), hmem₄]
    exact hl
  · rw [hother₂ va h2, hmem₄, hother₁ va fun j hj => by rw [Nat.zero_add]; exact h1 j hj]
    exact hnone₂ va

theorem KernelAccepted.map_iff {m : Words} (h : KernelAccepted mach s)
    (hl : KernelLeaves m im.tab4 (mach.kernEndPa / pageSize4K) s.fb (s.fbLen / pageSize4K)) :
    KernelMap m im.tab4 mach.kernEndPa s.fb s.fbLen ↔ mach.kernEndPa % pageSize4K = 0 ∧ (s.fbLen = 0 ∨ s.fb < 2 ^ 52) :=
  hl.map_iff h.pages_le.1 h.pages_le.2 h.fbLen_align h.fb h.fb_lt

end Run

/-- `mem_page_bootstrap_2` returns, and maps the whole kernel exactly if it ends with a page. A frame buffer has to lie
at a physical address. -/
theorem kernel_map_iff (dbg : Bool) (im : MemImage) (mach : MemMachine) (s : MemState) (k : Nat) (h : KernelAccepted mach s)
    (hframes : s.frameCountBootstrap + (kernelPaths mach s).card ≤ frameCapBootstrap)
    (hk : mach.kernEndPa / pageSize4K + 1 < k ∧ s.fbLen / pageSize4K + 1 < k) :
    ∃ s', memPageBootstrap2 dbg im mach k s = .ok () s' ∧ (KernelMap s'.mem im.tab4 mach.kernEndPa s.fb s.fbLen ↔
      mach.kernEndPa % pageSize4K = 0 ∧ (s.fbLen = 0 ∨ s.fb < 2 ^ 52)) := by
  obtain ⟨s', hrun, hl⟩ := memPageBootstrap2_run dbg im h hframes hk
  exact ⟨s', hrun, h.map_iff hl⟩

/-- The first `n` pages take a table of the last level for each 512 of them, so a bound on all their tables. -/
theorem card_kernel_paths_le (n : Nat) : (paths 0 n).card ≤ (n / 512 + 1) * 3 := by
  have hsub : paths 0 n ⊆ (Finset.range (n / 512 + 1) ×ˢ Finset.range 3).image fun x =>
      Radix.path (key (x.1 * 512 * pageSize4K)) (x.2 + 1) := by
    intro q hq
    obtain ⟨⟨i, d⟩, hx, rfl⟩ := Finset.mem_image.1 hq
    obtain ⟨hi, hd⟩ := Finset.mem_product.1 hx
    have hi : i < n := Finset.mem_range.1 hi
    have hd : d < 3 := Finset.mem_range.1 hd
    refine Finset.mem_image.2 ⟨(i / 512, d), Finset.mem_product.2 ⟨Finset.mem_range.2 ?_, Finset.mem_range.2 hd⟩, ?_⟩
    · dsimp only
      omega
    · -- the first three indices leave out the lowest nine bits of the page's number
      refine Radix.path_congr fun e he => Fin.ext ?_
      have he : e < 3 := by omega
      rw [key_val (by omega), key_val (by omega)]
      dsimp only
      unfold pageSize4K
      rw [Nat.zero_add, Nat.mul_div_cancel _ (by norm_num), Nat.mul_div_cancel _ (by norm_num)]
      have hpow : 512 ^ (3 - e) = 512 * 512 ^ (2 - e) := by
        rw [← Nat.pow_succ']
        congr 1
        omega
      rw [hpow, ← Nat.div_div_eq_div_mul, ← Nat.div_div_eq_div_mul, Nat.mul_div_cancel _ (by norm_num)]
  refine (Finset.card_le_card hsub).trans (Finset.card_image_le.trans ?_)
  rw [Finset.card_product, Finset.card_range, Finset.card_range]

/-- A kernel of less than 96M, and a frame buffer of 3M. -/
theorem memState₀_kernelAccepted {mach : MemMachine} (h : mach.kernEndPa ≤ 0x6000000) : KernelAccepted mach memState₀ := by
  refine ⟨by decide, by decide, by omega, by decide, fun i hi => ⟨Nat.mul_mod_left .., .inl ?_⟩, by decide, by decide, by decide,
    fun i hi => ?_⟩
  · unfold va48LowEnd
    unfold pageSize4K at *
    omega
  · have hi : i < 768 := hi
    have hu : u64 (0xfd000000 + i * pageSize4K) = 0xfd000000 + i * pageSize4K := u64_of_lt (by unfold pageSize4K; omega)
    show Target (u64 (0xfd000000 + i * pageSize4K))
    rw [hu]
    unfold Target va48LowEnd pageSize4K
    omega

theorem memState₀_kernelPaths {mach : MemMachine} (h : mach.kernEndPa ≤ 0x6000000) :
    memState₀.frameCountBootstrap + (kernelPaths mach memState₀).card ≤ frameCapBootstrap := by
  have h1 := card_kernel_paths_le (mach.kernEndPa / pageSize4K)
  have h2 : (paths va48FrameBuffer (memState₀.fbLen / pageSize4K)).card ≤ 768 * 3 := card_paths_le va48FrameBuffer 768
  have h3 : (kernelPaths mach memState₀).card ≤ (mach.kernEndPa / pageSize4K / 512 + 1) * 3 + 768 * 3 :=
    (Finset.card_union_le _ _).trans (Nat.add_le_add h1 h2)
  have h4 : memState₀.frameCountBootstrap = 0 := rfl
  rw [h4]
  unfold pageSize4K at h3
  unfold frameCapBootstrap
  omega

theorem kernel_map_iff_machine₀ : ∃ s', memPageBootstrap2 true memImage₀ memMachine₀ 0x6000 memState₀ = .ok () s' ∧
    (KernelMap s'.mem memImage₀.tab4 0x5000000 0xfd000000 0x300000 ↔
      0x5000000 % pageSize4K = 0 ∧ ((0x300000 = 0) ∨ 0xfd000000 < 2 ^ 52)) :=
  kernel_map_iff true memImage₀ memMachine₀ memState₀ 0x6000 (memState₀_kernelAccepted (by decide))
    (memState₀_kernelPaths (by decide)) (by decide)

/-- A kernel that ends in the middle of a page, behind the pool of frames. -/
def memMachine₁ : MemMachine := { memMachine₀ with kernEndPa := 0x5000800 }

/-- The last 2K of that kernel are not mapped. -/
theorem kernel_map_truncated : ¬ ∃ s', memPageBootstrap2 true memImage₀ memMachine₁ 0x6000 memState₀ = .ok () s' ∧
    KernelMap s'.mem memImage₀.tab4 memMachine₁.kernEndPa memState₀.fb memState₀.fbLen := by
  rintro ⟨s', hs', hmap⟩
  have h : KernelAccepted memMachine₁ memState₀ := memState₀_kernelAccepted (by decide)
  obtain ⟨s, hrun, hl⟩ := memPageBootstrap2_run true memImage₀ h (memState₀_kernelPaths (by decide))
    (by decide : _ < 0x6000 ∧ _)
  rw [hrun] at hs'
  cases hs'
  have hend := ((h.map_iff hl).1 hmap).1
  revert hend
  decide

end Cing.Mem
