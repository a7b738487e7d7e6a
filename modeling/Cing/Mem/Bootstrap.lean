/-
The identity map of `mem_page_bootstrap_1`. `_map_bootstrap` follows `_map_early` of mm_page.c step by
step, with another pool and with `ok` initialised, so what is known of that map holds here. The loop
stops as soon as the end of the next page reaches `pa_max`: the last page below it is never mapped.
-/
import Cing.Mem.Model
import Cing.Mm.Page.EarlyMap

namespace Cing.Mem

open Exec Page

/-! ## Following mm_page.c -/

/-- The tables below a root, as mm_page.c sees them: its pool is `_frame_pool_bootstrap`, and it has no window. -/
def view (im : MemImage) (root : Nat) (h : root % pageSize4K = 0) : Image where
  tab4 := root
  directTabSpace := 0
  directTabArray := 0
  earlyFramePool := im.framePoolBootstrap
  tab4_align := h
  space_align := rfl
  pool_align := im.pool_placed.1

/-- The state as the early stage of mm_page.c sees it. -/
def early (s : MemState) : PageState where
  mem := s.mem
  freeHead := 0
  freeCount := 0
  earlyFrameCount := s.frameCountBootstrap
  isEarlyStage := decide (s.bootStage < memBootstrapStageFinish)

section Follow

variable {im : MemImage} {root : Nat} {s : MemState}

theorem tabEntryIdx_follows (va level : Nat) : Follows early s (vaddTabIndex va level) (tabEntryIdx va level) :=
  (kernelAssert_follows id _ _).bind fun _ s' => .pure s' _

theorem poke_follows (a v : Nat) : Follows early s (Page.poke a v) (Mem.poke a v) := .update rfl

theorem tabZero_follows (t : Nat) : Follows early s (staticTabZero t) (Mem.tabZero t) := .update rfl

theorem tabEntryInit_follows (level padd paddSize : Nat) :
    Follows early s (Page.tabEntryInit level true true padd paddSize) (Mem.tabEntryInit level true true padd paddSize) := by
  have hcheck : Follows early s (Page.tabEntryCheck level paddSize) (Mem.tabEntryCheck level paddSize) :=
    .ite (kernelAssert_follows id _ _) (.ite (kernelAssert_follows id _ _) (.ite (kernelAssert_follows id _ _) (.stop _ _)))
  refine hcheck.bind fun _ _ => (kernelAssert_follows id _ _).bind fun _ _ => ?_
  exact (kernelAssert_follows id _ _).bind fun _ s' => .pure s' _

variable (h : root % pageSize4K = 0)
include h

theorem memFrameAlloc_follows : Follows early s (mmFrameAllocEarly (view im root h)) (memFrameAlloc im) := by
  refine .get ((kernelAssert_follows of_decide_eq_true _ _).bind fun _ s' => .ite ?_ (.pure s' _))
  exact Follows.bind (.update rfl) fun _ s'' => .pure s'' _

theorem bootstrapTable_follows (level entryPa : Nat) (ok : Bool) :
    Follows early s (earlyTable (view im root h) level entryPa ok) (bootstrapTable im level entryPa ok) := by
  refine .get (.ite (.pure s _) ((kernelAssert_follows id _ _).bind fun _ s₁ => ?_))
  refine (memFrameAlloc_follows h).bind fun r s₂ => ?_
  cases r with
  | none => exact .pure s₂ _
  | some frame =>
    refine (kernelAssert_follows id _ _).bind fun _ _ => (tabEntryInit_follows _ _ _).bind fun e _ => ?_
    exact (poke_follows _ _).bind fun _ _ => (tabZero_follows _).bind fun _ s' => .get (.pure s' _)

theorem mapBootstrapLoop_follows (va : Nat) : ∀ (lv : Nat) (ok : Bool) (tab : Nat) (s : MemState),
    Follows early s (mapEarlyLoop (view im root h) va lv ok tab) (mapBootstrapLoop im va lv ok tab)
  | 0, _, _, s => .pure s _
  | 1, _, _, s => .pure s _
  | 2, _, _, s => .pure s _
  | lv + 3, ok, tab, s => by
    rw [mapEarlyLoop, mapBootstrapLoop]
    refine (tabEntryIdx_follows va _).bind fun idx _ => (bootstrapTable_follows h _ _ ok).bind fun r s' => ?_
    obtain ⟨ok', r⟩ := r
    cases r with
    | none => exact .pure s' _
    | some t => exact mapBootstrapLoop_follows va (lv + 2) ok' t s'

/-- `_map_bootstrap` does what `_map_early` does when its `ok` happens to be true. -/
theorem mapBootstrap_follows (va pa : Nat) :
    Follows early s (mapEarly (view im root h) true va pa) (mapBootstrap im root va pa) := by
  refine (kernelAssert_follows id _ _).bind fun _ _ => (kernelAssert_follows id _ _).bind fun _ s₁ => ?_
  refine (mapBootstrapLoop_follows h va 4 true root s₁).bind fun r s₂ => ?_
  obtain ⟨ok, r⟩ := r
  cases ok with
  | false => exact .pure s₂ _
  | true =>
    cases r with
    | none => exact .pure s₂ _
    | some tab =>
      refine Follows.bind ?_ fun _ s' => .pure s' _
      refine (tabEntryIdx_follows va 2).bind fun idx _ => .get ((kernelAssert_follows id _ _).bind fun _ _ => ?_)
      exact (tabEntryInit_follows _ _ _).bind fun e _ => poke_follows _ _

end Follow

/-! ## The loop -/

/-- Where the loop of `mem_page_bootstrap_1` stops: the last 2M page below `pa_max`. -/
def bootstrapEnd : Nat := paMax - pageSize2M

theorem bootstrapEnd_eq : bootstrapEnd = 2 ^ 40 - 2097152 := by norm_num [bootstrapEnd, paMax, pageSize2M]

section Run

variable {im : MemImage} {s s' : MemState} {e : Nat}

/-- A frame of the pool. -/
theorem poolFrame_low (im : MemImage) {k : Nat} (hk : k < frameCapBootstrap) :
    LowFrame (im.framePoolBootstrap + k * pageSize4K) := by
  obtain ⟨h1, h2, h3⟩ := im.pool_placed
  rw [show frameCapBootstrap * pageSize4K = 67108864 by norm_num [frameCapBootstrap, pageSize4K]] at h3
  rw [show frameCapBootstrap = 16384 by norm_num [frameCapBootstrap]] at hk
  unfold pageSize4K at h1
  unfold LowFrame IsPage pageSize4K
  omega

theorem view_placed (im : MemImage) : EarlyPlaced (view im im.tab4Bootstrap im.tab4Bootstrap_placed.1) := by
  obtain ⟨h1, h2, h3⟩ := im.tab4Bootstrap_placed
  unfold pageSize4K at h3
  exact ⟨⟨⟨h1, by show im.tab4Bootstrap ≤ _; omega⟩, h2⟩, fun k hk => ⟨poolFrame_low im hk, im.tab4Bootstrap_apart k hk⟩⟩

/-- The identity map below `_tab_4_bootstrap` up to `e`, with no more than two tables for each gigabyte it reaches. -/
structure Mapped (im : MemImage) (s : MemState) (e : Nat) : Prop where
  identity : Identity (view im im.tab4Bootstrap im.tab4Bootstrap_placed.1) (early s) e
  frames : s.frameCountBootstrap ≤ 2 * ((e + 2 ^ 30 - 1) / 2 ^ 30)

/-- The pool has room for the next page. -/
theorem Mapped.next (h : Mapped im s e) (he : e < bootstrapEnd) :
    ∃ s', mapBootstrap im im.tab4Bootstrap e e s = .ok true s' ∧ Mapped im s' (e + 2097152) := by
  have hf := h.frames
  have hal := h.identity.align
  rw [bootstrapEnd_eq] at he
  have hroom : s.frameCountBootstrap + 2 ≤ earlyFrameCap := by unfold earlyFrameCap; omega
  obtain ⟨ok, p, hmap, htrue, -, hpool⟩ := mapEarly_run h.identity (view_placed im) true
  obtain ⟨rfl, hcount, hsame⟩ := hpool rfl hroom
  obtain ⟨s', hrun, rfl⟩ := mapBootstrap_follows im.tab4Bootstrap_placed.1 e e true p hmap
  refine ⟨s', hrun, htrue rfl, ?_⟩
  -- only the first page of a gigabyte takes frames
  have hcount : s'.frameCountBootstrap ≤ s.frameCountBootstrap + 2 := hcount
  by_cases hgb : e % 2 ^ 30 = 0
  · omega
  · obtain ⟨t, ht⟩ := h.identity.table hgb
    have hsame : s'.frameCountBootstrap = s.frameCountBootstrap := hsame t ht
    omega

/-- One round of the loop: it is through, or the next page is mapped. -/
theorem bootstrap1Loop_round (n : Nat) (hal : e % 2097152 = 0) (hle : e ≤ bootstrapEnd) :
    (e = bootstrapEnd ∧ bootstrap1Loop im (n + 1) e s = .ok () s) ∨
      (e + 2097152 ≤ bootstrapEnd ∧ ∀ s₁, mapBootstrap im im.tab4Bootstrap e e s = .ok true s₁ →
        bootstrap1Loop im (n + 1) e s = bootstrap1Loop im n (e + 2097152) s₁) := by
  have hend := bootstrapEnd_eq
  have hnext : u64 (e + pageSize2M) = e + 2097152 := by unfold u64 pageSize2M; omega
  have hmax : paMax = 2 ^ 40 := by norm_num [paMax]
  rw [bootstrap1Loop, hnext, hmax]
  split
  · refine .inr ⟨by omega, fun s₁ hmap => ?_⟩
    rw [bind_ok hmap, bind_ok (kernelAssert_pos rfl _ s₁)]
  · exact .inl ⟨by omega, rfl⟩

theorem bootstrap1Loop_run {n : Nat} (h : Mapped im s e) (hle : e ≤ bootstrapEnd) (hn : bootstrapEnd ≤ e + n * 2097152) :
    ∃ s', bootstrap1Loop im (n + 1) e s = .ok () s' ∧ Mapped im s' bootstrapEnd := by
  induction n generalizing e s with
  | zero =>
    rcases bootstrap1Loop_round 0 h.identity.align hle with ⟨rfl, hrun⟩ | ⟨hlt, -⟩
    · exact ⟨s, hrun, h⟩
    · omega
  | succ n ih =>
    rcases bootstrap1Loop_round (n + 1) h.identity.align hle with ⟨rfl, hrun⟩ | ⟨hlt, hround⟩
    · exact ⟨s, hrun, h⟩
    · obtain ⟨s₁, hmap, h₁⟩ := h.next (by omega)
      rw [hround s₁ hmap]
      exact ih h₁ hlt (by omega)

end Run

/-! ## mem_page_bootstrap_1 -/

/-- The memory map and the kernel range that the assertions of `mem_page_bootstrap_1` accept. -/
structure Accepted (dbg : Bool) (mach : MemMachine) (s : MemState) : Prop where
  stage : s.bootStage = memBootstrapStage0
  secs : dbg = true → mach.secCnt > 0
  start : (mach.sections 0).base < mach.kernStartPa
  kernel : mach.kernStartPa < mach.kernEndPa
  stop : mach.kernEndPa < u64 ((mach.sections (u64Sub mach.secCnt 1)).base + (mach.sections (u64Sub mach.secCnt 1)).len)

/-- The identity map the comment in `mem_page_bootstrap_1` promises: all addresses below `pa_max`, and no others. -/
def IdentityMap (m : Words) (root : Nat) : Prop :=
  (∀ a < paMax, translate m root a = some a) ∧ ∀ a, paMax ≤ a → a < 2 ^ 48 → translate m root a = none

section Bootstrap

variable {dbg : Bool} {im : MemImage} {mach : MemMachine} {s : MemState} {n : Nat}

theorem Mapped.translate {e : Nat} (h : Mapped im s e) :
    (∀ a < e, translate s.mem im.tab4Bootstrap a = some a) ∧
      ∀ a, e ≤ a → a < 2 ^ 48 → translate s.mem im.tab4Bootstrap a = none := by
  have hal := h.identity.align
  have hle := h.identity.le
  constructor
  · intro a ha
    have hpage : page2M a < e := by unfold page2M; omega
    have hl : lookup s.mem im.tab4Bootstrap a = some ⟨page2M a, true, true⟩ := h.identity.here a hpage
    unfold Page.translate
    rw [hl]
    simp only [Option.map_some, if_true, Option.some.injEq]
    rw [show pageSize2M = 2097152 by norm_num [pageSize2M]]
    unfold page2M
    omega
  · intro a ha hlt
    have hpage : e ≤ page2M a := by unfold page2M; omega
    have hl : lookup s.mem im.tab4Bootstrap a = none := h.identity.above a hpage
    unfold Page.translate
    rw [hl]
    rfl

theorem memPageBootstrap1_run (im : MemImage) (ha : Accepted dbg mach s) (hc : s.frameCountBootstrap = 0) (hn : 2 ^ 19 ≤ n) :
    ∃ s', memPageBootstrap1 dbg im mach n s = .ok () s' ∧ Mapped im s' bootstrapEnd := by
  obtain ⟨k, rfl⟩ : ∃ k, n = k + 1 := ⟨n - 1, by omega⟩
  have hz : ∃ s', Mem.tabZero im.tab4Bootstrap s = .ok () s' ∧ Mapped im s' 0 := by
    have hstage : (early s).isEarlyStage = true := decide_eq_true (by rw [ha.stage]; decide)
    have hzero : staticTabZero im.tab4Bootstrap (early s) = .ok () _ := rfl
    obtain ⟨s', hs', he⟩ := tabZero_follows im.tab4Bootstrap () _ hzero
    refine ⟨s', hs', ?_, ?_⟩
    · rw [he]
      exact .zeroed (view_placed im) hstage hc hzero
    · cases hs'
      exact hc.le
  obtain ⟨s₁, hz, h₁⟩ := hz
  obtain ⟨s₂, hloop, h₂⟩ := bootstrap1Loop_run (n := k) h₁ (Nat.zero_le _) (by rw [bootstrapEnd_eq]; omega)
  have hal : memAlignCheck im.tab4Bootstrap pageSize4K = true := by
    unfold memAlignCheck
    exact decide_eq_true im.tab4Bootstrap_placed.1
  refine ⟨s₂, ?_, h₂⟩
  have hstart : memPaStart dbg mach s = .ok (mach.sections 0).base s := by
    unfold memPaStart
    rw [bind_ok (kernelAssertD_of ha.secs _ s)]
    rfl
  have hstop : memPaEnd dbg mach s =
      .ok (u64 ((mach.sections (u64Sub mach.secCnt 1)).base + (mach.sections (u64Sub mach.secCnt 1)).len)) s := by
    unfold memPaEnd
    rw [bind_ok (kernelAssertD_of ha.secs _ s)]
    rfl
  unfold memPageBootstrap1
  rw [bind_ok (get_run s), bind_ok (kernelAssert_pos ha.stage _ s), bind_ok hstart, bind_ok hstop,
    bind_ok (kernelAssert_pos ha.start _ s), bind_ok (kernelAssert_pos ha.kernel _ s), bind_ok (kernelAssert_pos ha.stop _ s),
    bind_ok hz, bind_ok hloop]
  exact kernelAssert_pos hal _ s₂

/-- An identity map that ends at the last page leaves that page out. -/
theorem Mapped.not_identityMap (h : Mapped im s bootstrapEnd) : ¬ IdentityMap s.mem im.tab4Bootstrap := by
  intro hmap
  have hnone := h.translate.2 bootstrapEnd le_rfl (by decide)
  rw [hmap.1 bootstrapEnd (by decide)] at hnone
  cases hnone

/-- `mem_page_bootstrap_1` always returns, with an identity map that lacks the last 2M page below `pa_max`. -/
theorem bootstrap_map_incomplete (dbg : Bool) (im : MemImage) (mach : MemMachine) (s : MemState) (n : Nat)
    (ha : Accepted dbg mach s) (hc : s.frameCountBootstrap = 0) (hn : 2 ^ 19 ≤ n) :
    ∃ s', memPageBootstrap1 dbg im mach n s = .ok () s' ∧ ¬ IdentityMap s'.mem im.tab4Bootstrap ∧
      (∀ a < paMax - pageSize2M, translate s'.mem im.tab4Bootstrap a = some a) ∧
      ∀ a, paMax - pageSize2M ≤ a → a < 2 ^ 48 → translate s'.mem im.tab4Bootstrap a = none := by
  obtain ⟨s', hrun, h⟩ := memPageBootstrap1_run im ha hc hn
  exact ⟨s', hrun, h.not_identityMap, h.translate⟩

/-- A gigabyte of memory from 1M on, with the kernel from 2M to 80M. -/
def memMachine₀ : MemMachine where
  sections := fun _ => ⟨0x100000, 0x40000000⟩
  secCnt := 1
  kernStartPa := 0x200000
  kernEndPa := 0x5000000

/-- The tables at the start of the kernel, the pool at 16M. -/
def memImage₀ : MemImage where
  tab4Bootstrap := 0x200000
  tab4 := 0x201000
  framePoolBootstrap := 0x1000000
  tab4Bootstrap_placed := by decide
  tab4_placed := by decide
  pool_placed := by decide
  tab4Bootstrap_apart := by intro k _; unfold pageSize4K; omega
  tab4_apart := by intro k _; unfold pageSize4K; omega

/-- The state when the boot loader has set up the frame buffer. -/
def memState₀ : MemState where
  mem := fun _ => 0
  frameCountBootstrap := 0
  paListBootstrapNext := 0
  bootStage := memBootstrapStage0
  fb := 0xfd000000
  fbLen := 0x300000

theorem memState₀_accepted (dbg : Bool) : Accepted dbg memMachine₀ memState₀ := by
  refine ⟨rfl, fun _ => ?_, ?_, ?_, ?_⟩ <;> decide

theorem bootstrap_map_incomplete_machine₀ : ∃ s', memPageBootstrap1 true memImage₀ memMachine₀ (2 ^ 19) memState₀ = .ok () s' ∧
    ¬ IdentityMap s'.mem memImage₀.tab4Bootstrap ∧
    (∀ a < paMax - pageSize2M, translate s'.mem memImage₀.tab4Bootstrap a = some a) ∧
    ∀ a, paMax - pageSize2M ≤ a → a < 2 ^ 48 → translate s'.mem memImage₀.tab4Bootstrap a = none :=
  bootstrap_map_incomplete true memImage₀ memMachine₀ memState₀ (2 ^ 19) (memState₀_accepted true) rfl le_rfl

/-- The last page below `pa_max` is not there on a machine the code accepts. -/
theorem bootstrap_map_misses_page : ¬ ∃ s', memPageBootstrap1 true memImage₀ memMachine₀ (2 ^ 19) memState₀ = .ok () s' ∧
    IdentityMap s'.mem memImage₀.tab4Bootstrap := by
  rintro ⟨s', hs', hmap⟩
  obtain ⟨s, hrun, h⟩ := memPageBootstrap1_run memImage₀ (memState₀_accepted true) rfl le_rfl
  rw [hrun] at hs'
  cases hs'
  exact h.not_identityMap hmap

end Bootstrap

end Cing.Mem
