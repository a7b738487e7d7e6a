/-
boot.asm and mem.c: the tables that are active while the kernel boots. boot.asm maps the first gigabyte to itself; `mem_bootstrap_1`
goes over to a map of the first terabyte but for its last 2M, and `mem_bootstrap_2` to one of the whole pages of the kernel. Each
builds the new tables while the old ones are active. `boot_stage` says which are; stage 3 has the number of stage 2.
-/
import Cing.Mem.Sections
import Cing.Mem.Elf
import Cing.Mem.FrameMap
import Cing.Mem.Footprint

namespace Cing

/-- Where the linker put the three tables of boot.asm, which follow one another. -/
structure BootTables where
  p4Table : Nat
  p4Table_align : p4Table % pageSize4K = 0
  p4Table_pos : 0 < p4Table
  p4Table_lt : p4Table + 3 * pageSize4K ≤ 2 ^ 32

def BootTables.p3Table (bt : BootTables) : Nat := bt.p4Table + pageSize4K

def BootTables.p2Table (bt : BootTables) : Nat := bt.p4Table + 2 * pageSize4K

/-- What the memory subsystem knows, the config spaces that the PCIe driver knows, and the register CR3. -/
structure BootMachine where
  page : MemState
  frame : FrameState
  groups : List Nat
  cr3 : Nat

abbrev StageM := EStateM Stop BootMachine

namespace Mem

open Exec Page

/-! ## boot.asm -/

/-- `mov [a], v` of 32 bits: the upper half of the word stays. -/
def storeDword (m : Words) (a v : Nat) : Words := Function.update m a (m a / 2 ^ 32 * 2 ^ 32 + v % 2 ^ 32)

/-- The first `n` rounds of `.map_p2_table`. -/
def mapP2Table (p2Table : Nat) : Nat → Words → Words
  | 0, m => m
  | n + 1, m => storeDword (mapP2Table p2Table n m) (p2Table + n * 8) ((0x200000 * n) % 2 ^ 32 ||| 0b10000011)

/-- `set_up_page_tables`. -/
def setUpPageTables (bt : BootTables) (m : Words) : Words :=
  let m := storeDword m (bt.p4Table + 511 * 8) (bt.p4Table ||| 0b11)
  let m := storeDword m bt.p4Table (bt.p3Table ||| 0b11)
  let m := storeDword m bt.p3Table (bt.p2Table ||| 0b11)
  mapP2Table bt.p2Table 512 m

/-! ## mem.c -/

def memBootstrapStage1 : Nat := 1
def memBootstrapStage2 : Nat := 2
def memBootstrapStage3 : Nat := 2

/-- Runs a function of mem_page.c. -/
def onPages {α : Type} (x : MemM α) : StageM α := zoom BootMachine.page (fun p s => { s with page := p }) x

/-- Runs a function of mem_frame.c, which reads the one `boot_stage`. -/
def onFrames {α : Type} (x : FrameM α) : StageM α :=
  zoom (fun s => { s.frame with bootStage := s.page.bootStage, reads := [] }) (fun f s => { s with frame := f }) x

/-- The write of CR3 in `_tab_load_root`. -/
def loadRoot (p4 : Nat) : StageM Unit := modify fun s => { s with cr3 := p4 &&& 0x000ffffffffff000 }

def setStage (stage : Nat) : StageM Unit := modify fun s => { s with page := { s.page with bootStage := stage } }

section Code

-- `self` is where `_bootstrap_kernel_elf_symbols` is
variable (dbg : Bool) (im : MemImage) (self : Nat)

/-- `mem_frame_bootstrap_1`. -/
def memFrameBootstrap1 (mbElf mbMmap : Bytes.Mem) (mbMmapLen : Nat) : StageM Unit := do
  let s ← get
  kernelAssert (s.page.bootStage = memBootstrapStage0) "boot_stage == MEM_BOOTSTRAP_STAGE_0"
  modify fun s => { s with page := { s.page with frameCountBootstrap := 0, paListBootstrapNext := 0 } }
  onFrames (bootstrapMmapInfo mbMmap mbMmapLen)
  onFrames (bootstrapKernelElfSymbols dbg mbElf self)

/-- `mem_bootstrap_1`, with at most `n` rounds of the loop of `mem_page_bootstrap_1`. -/
def memBootstrap1 (mbElf mbMmap : Bytes.Mem) (mbMmapLen n : Nat) : StageM Unit := do
  let s ← get
  kernelAssert (s.page.bootStage = memBootstrapStage0) "boot_stage == MEM_BOOTSTRAP_STAGE_0"
  memFrameBootstrap1 dbg self mbElf mbMmap mbMmapLen
  let s ← get
  onPages (memPageBootstrap1 dbg im s.frame.toMemMachine n)
  loadRoot im.tab4Bootstrap
  setStage memBootstrapStage1

/-- `mem_bootstrap_2`, with at most `k` rounds of each loop of `_map_impl`. -/
def memBootstrap2 (k : Nat) : StageM Unit := do
  let s ← get
  kernelAssert (s.page.bootStage = memBootstrapStage1) "boot_stage == MEM_BOOTSTRAP_STAGE_1"
  onFrames (memFrameBootstrap2 ⟨s.page.fb, s.page.fbLen, s.groups⟩)
  let s ← get
  onPages (memPageBootstrap2 dbg im s.frame.toMemMachine k)
  loadRoot im.tab4
  setStage memBootstrapStage2

/-- `mem_bootstrap_3`. -/
def memBootstrap3 : StageM Unit := do
  let s ← get
  kernelAssert (s.page.bootStage = memBootstrapStage2) "boot_stage == MEM_BOOTSTRAP_STAGE_2"
  setStage memBootstrapStage3

/-- What the kernel does at boot: the stages, the calls of `mem_page_map`, what the drivers find out, and writes of its own. -/
inductive BootCall
  | bootstrap1 (mbElf mbMmap : Bytes.Mem) (mbMmapLen n : Nat)
  | bootstrap2 (k : Nat)
  | bootstrap3
  | pageMap (k va nPg : Nat) (pa : PaList)
  | drivers (fb fbLen : Nat) (groups : List Nat)
  | writes (m : Words)

def BootCall.run : BootCall → StageM Unit
  | .bootstrap1 mbElf mbMmap mbMmapLen n => memBootstrap1 dbg im self mbElf mbMmap mbMmapLen n
  | .bootstrap2 k => memBootstrap2 dbg im k
  | .bootstrap3 => memBootstrap3
  | .pageMap k va nPg pa => onPages (memPageMap dbg im k va nPg pa)
  | .drivers fb fbLen groups => modify fun s => { s with page := { s.page with fb := fb, fbLen := fbLen }, groups := groups }
  | .writes m => modify fun s => { s with page := { s.page with mem := m } }

end Code

/-! ## The map of boot.asm -/

/-- The entries the first gigabyte is found by. -/
structure BootMap (bt : BootTables) (m : Words) : Prop where
  p4 : m bt.p4Table = bt.p3Table + 3
  p3 : m bt.p3Table = bt.p2Table + 3
  p2 : ∀ i < 512, m (bt.p2Table + tabEntryLen * i) = i * 2097152 + 131

section BootAsm

variable {bt : BootTables} {m m' : Words} {a n x : Nat}

theorem storeDword_zero {v : Nat} (hz : m a = 0) (hv : v < 2 ^ 32) : storeDword m a v = Function.update m a v := by
  unfold storeDword
  rw [hz, Nat.zero_div, Nat.zero_mul, Nat.zero_add, Nat.mod_eq_of_lt hv]

theorem p2_entry (hn : n < 512) : (0x200000 * n) % 2 ^ 32 ||| 0b10000011 = n * 2097152 + 131 := by
  rw [Nat.mod_eq_of_lt (by omega), show (0x200000 : Nat) = 2 ^ 21 by norm_num, ← Nat.two_pow_add_eq_or_of_lt (by norm_num)]
  omega

/-- The loop fills the first `n` entries. -/
theorem mapP2Table_apply (p2Table : Nat) (hn : n ≤ 512) (hz : ∀ i < n, m (p2Table + i * 8) = 0) (x : Nat) :
    mapP2Table p2Table n m x =
      if p2Table ≤ x ∧ x < p2Table + n * 8 ∧ (x - p2Table) % 8 = 0 then (x - p2Table) / 8 * 2097152 + 131 else m x := by
  induction n generalizing x with
  | zero => rw [mapP2Table, if_neg (by omega)]
  | succ n ih =>
    have ih := ih (by omega) fun i hi => hz i (by omega)
    have hzero : mapP2Table p2Table n m (p2Table + n * 8) = 0 := by
      rw [ih, if_neg (by omega)]
      exact hz n (by omega)
    rw [mapP2Table, p2_entry (by omega), storeDword_zero hzero (by omega)]
    by_cases hx : x = p2Table + n * 8
    · rw [hx, Function.update_self, if_pos (by omega)]
      omega
    · rw [Function.update_of_ne hx, ih]
      by_cases hin : p2Table ≤ x ∧ x < p2Table + n * 8 ∧ (x - p2Table) % 8 = 0
      · rw [if_pos hin, if_pos (by omega)]
      · rw [if_neg hin, if_neg (by omega)]

theorem or_three {p : Nat} (h : p % 4096 = 0) : p ||| 0b11 = p + 3 := by
  obtain ⟨k, rfl⟩ := Nat.dvd_of_mod_eq_zero h
  rw [show (4096 : Nat) = 2 ^ 12 by norm_num, ← Nat.two_pow_add_eq_or_of_lt (by norm_num)]

/-- The tables of boot.asm lie in memory that is zero. -/
def Zeroed (a len : Nat) (m : Words) : Prop := ∀ x, a ≤ x → x < a + len → m x = 0

theorem setUpPageTables_map (hz : Zeroed bt.p4Table (3 * pageSize4K) m) : BootMap bt (setUpPageTables bt m) := by
  have hal := bt.p4Table_align
  have hlt := bt.p4Table_lt
  unfold pageSize4K at hal hlt
  have h3 : bt.p3Table = bt.p4Table + 4096 := rfl
  have h2 : bt.p2Table = bt.p4Table + 8192 := rfl
  have hzero : ∀ x, bt.p4Table ≤ x → x < bt.p4Table + 12288 → m x = 0 := hz
  have hor4 := or_three hal
  have hor3 : bt.p3Table ||| 0b11 = bt.p3Table + 3 := or_three (by omega)
  have hor2 : bt.p2Table ||| 0b11 = bt.p2Table + 3 := or_three (by omega)
  -- the three stores, each to a word that is zero
  have hm₁ : storeDword m (bt.p4Table + 511 * 8) (bt.p4Table ||| 0b11) = Function.update m (bt.p4Table + 4088)
      (bt.p4Table + 3) := by
    rw [hor4]
    exact storeDword_zero (hzero _ (by omega) (by omega)) (by omega)
  generalize hf₁ : Function.update m (bt.p4Table + 4088) (bt.p4Table + 3) = m₁ at hm₁
  have hz₁ : ∀ x, x ≠ bt.p4Table + 4088 → m₁ x = m x := fun x hx => by rw [← hf₁, Function.update_of_ne hx]
  have hm₂ : storeDword m₁ bt.p4Table (bt.p3Table ||| 0b11) = Function.update m₁ bt.p4Table (bt.p3Table + 3) := by
    rw [hor3]
    exact storeDword_zero ((hz₁ _ (by omega)).trans (hzero _ le_rfl (by omega))) (by omega)
  generalize hf₂ : Function.update m₁ bt.p4Table (bt.p3Table + 3) = m₂ at hm₂
  have hz₂ : ∀ x, x ≠ bt.p4Table → m₂ x = m₁ x := fun x hx => by rw [← hf₂, Function.update_of_ne hx]
  have hm₃ : storeDword m₂ bt.p3Table (bt.p2Table ||| 0b11) = Function.update m₂ bt.p3Table (bt.p2Table + 3) := by
    rw [hor2]
    exact storeDword_zero ((hz₂ _ (by omega)).trans ((hz₁ _ (by omega)).trans (hzero _ (by omega) (by omega)))) (by omega)
  generalize hf₃ : Function.update m₂ bt.p3Table (bt.p2Table + 3) = m₃ at hm₃
  have hz₃ : ∀ x, x ≠ bt.p3Table → m₃ x = m₂ x := fun x hx => by rw [← hf₃, Function.update_of_ne hx]
  have happly := mapP2Table_apply (m := m₃) bt.p2Table le_rfl fun i hi =>
    (hz₃ _ (by omega)).trans ((hz₂ _ (by omega)).trans ((hz₁ _ (by omega)).trans (hzero _ (by omega) (by omega))))
  have hend : setUpPageTables bt m = mapP2Table bt.p2Table 512 m₃ := by
    simp only [setUpPageTables, hm₁, hm₂, hm₃]
  rw [hend]
  refine ⟨?_, ?_, fun i hi => ?_⟩
  · rw [happly, if_neg (by omega), hz₃ _ (by omega), ← hf₂, Function.update_self]
  · rw [happly, if_neg (by omega), ← hf₃, Function.update_self]
  · unfold tabEntryLen
    rw [happly, if_pos (by omega)]
    omega

theorem storeDword_other (hx : x ≠ a) (v : Nat) : storeDword m a v x = m x := Function.update_of_ne hx _ _

theorem mapP2Table_other {p2Table : Nat} (hx : x < p2Table ∨ p2Table + n * 8 ≤ x) : mapP2Table p2Table n m x = m x := by
  induction n with
  | zero => rfl
  | succ n ih => rw [mapP2Table, storeDword_other (by omega), ih (by omega)]

/-- boot.asm writes its own tables only. -/
theorem setUpPageTables_other (hx : x < bt.p4Table ∨ bt.p4Table + 3 * pageSize4K ≤ x) : setUpPageTables bt m x = m x := by
  unfold pageSize4K at hx
  have h3 : bt.p3Table = bt.p4Table + 4096 := rfl
  have h2 : bt.p2Table = bt.p4Table + 8192 := rfl
  unfold setUpPageTables
  rw [mapP2Table_other (by omega), storeDword_other (by omega), storeDword_other (by omega), storeDword_other (by omega)]

theorem BootMap.lookup (h : BootMap bt m) (ha : a < 2 ^ 30) : lookup m bt.p4Table a = some ⟨page2M a, true, true⟩ := by
  have hal := bt.p4Table_align
  have hlt := bt.p4Table_lt
  unfold pageSize4K at hal hlt
  have h3 : bt.p3Table = bt.p4Table + 4096 := rfl
  have h2 : bt.p2Table = bt.p4Table + 8192 := rfl
  have hk0 : (key a 0 : Nat) = 0 := by rw [key_val (by omega)]; norm_num; omega
  have hk1 : (key a 1 : Nat) = 0 := by rw [key_val (by omega)]; norm_num; omega
  have hk2 : (key a 2 : Nat) = a / 2097152 := by rw [key_val (by omega)]; norm_num; omega
  have hpage : ∀ p, p % 4096 = 0 → p < 2 ^ 32 → IsPage p := by
    intro p hp hlow
    refine ⟨hp, ?_⟩
    unfold va48LowEnd
    omega
  refine Radix.walk_eq_some.2 ⟨2, by omega, bt.p2Table, ?_, ?_⟩
  · refine Radix.node_cons.2 ⟨bt.p3Table, Radix.node_cons.2 ⟨bt.p4Table, rfl, ?_⟩, ?_⟩
    · show decode 0 _ = _
      rw [hk0, Nat.mul_zero, Nat.add_zero, h.p4]
      exact decode_value_table (by omega) (hpage _ (by omega) (by omega))
    · show decode 1 _ = _
      rw [hk1, Nat.mul_zero, Nat.add_zero, h.p3]
      exact decode_value_table (by omega) (hpage _ (by omega) (by omega))
  · show decode 2 _ = _
    rw [hk2, h.p2 _ (by omega)]
    have hpg : page2M a = a / 2097152 * 2097152 := by unfold page2M; omega
    rw [hpg]
    exact (entry_2M (by omega) (by unfold va48LowEnd; omega)).2

theorem translate_of_page2M {root : Nat} (h : lookup m root a = some ⟨page2M a, true, true⟩) (ha : a < 2 ^ 48) :
    translate m root a = some a := by
  unfold Page.translate
  rw [h]
  simp only [Option.map_some, if_true, Option.some.injEq]
  rw [show pageSize2M = 2097152 by norm_num [pageSize2M]]
  unfold page2M
  omega

theorem BootMap.congr (h : BootMap bt m) (hm : ∀ x, bt.p4Table ≤ x → x < bt.p4Table + 3 * pageSize4K → m' x = m x) :
    BootMap bt m' := by
  have h3 : bt.p3Table = bt.p4Table + 4096 := rfl
  have h2 : bt.p2Table = bt.p4Table + 8192 := rfl
  unfold pageSize4K at hm
  refine ⟨?_, ?_, fun i hi => ?_⟩
  · rw [hm _ le_rfl (by omega), h.p4]
  · rw [hm _ (by omega) (by omega), h.p3]
  · rw [hm _ (by omega) (by unfold tabEntryLen; omega), h.p2 i hi]

end BootAsm

/-! ## The map of mem_bootstrap_1 -/

/-- The terabyte but for its last 2M is mapped, and the tables for it are in the first `c` frames of the pool. -/
structure LowMap (im : MemImage) (c : Nat) (m : Words) : Prop where
  page : ∀ {q t}, Radix.node (entries m) im.tab4Bootstrap q = some t →
    t = im.tab4Bootstrap ∨ ∃ k < c, k < frameCapBootstrap ∧ t = im.framePoolBootstrap + k * pageSize4K
  here : ∀ va, page2M va < bootstrapEnd → lookup m im.tab4Bootstrap va = some ⟨page2M va, true, true⟩

/-- The tables of the boot stages are apart from one another. -/
structure Apart3 (bt : BootTables) (im : MemImage) : Prop where
  boot : ∀ x, bt.p4Table ≤ x → x < bt.p4Table + 3 * pageSize4K → ¬ TableWord im im.tab4Bootstrap 0 x ∧ ¬ TableWord im im.tab4 0 x
  roots : im.tab4 ≠ im.tab4Bootstrap

section LowMap

variable {bt : BootTables} {im : MemImage} {c t : Nat} {m m' : Words} {s s' : MemState} {q : List (Fin 512)}

theorem LowMap.congr (h : LowMap im c m) (hm : SameTables im.tab4Bootstrap m m') : LowMap im c m' :=
  ⟨fun {q _} hq => h.page ((hm.node q).symm.trans hq), fun va hva => (hm.lookup va).trans (h.here va hva)⟩

/-- Writing below `_tab_4` into later frames leaves the map alone. -/
theorem LowMap.writes (h : LowMap im c m) (hap : Apart3 bt im) (hw : WritesTo im im.tab4 c m m') : LowMap im c m' := by
  refine h.congr fun q t hq i => hw _ fun hword => ?_
  have hi := i.isLt
  obtain ⟨h1, -, -⟩ := im.tab4Bootstrap_placed
  obtain ⟨h2, -, -⟩ := im.tab4_placed
  obtain ⟨h3, -, -⟩ := im.pool_placed
  have hroots := hap.roots
  have hpool := im.tab4Bootstrap_apart ((im.tab4Bootstrap - im.framePoolBootstrap) / 4096)
  unfold TableWord tabEntryLen pageSize4K at hword
  unfold pageSize4K at h1 h2 h3 hpool
  rcases h.page hq with rfl | ⟨k, hk, hk', rfl⟩
  · omega
  · have hframe := im.tab4_apart k hk'
    unfold pageSize4K at hword hframe
    omega

theorem LowMap.translate (h : LowMap im c m) {a : Nat} (ha : a < bootstrapEnd) : translate m im.tab4Bootstrap a = some a := by
  have hend := bootstrapEnd_eq
  refine translate_of_page2M (h.here a ?_) (by omega)
  unfold page2M
  omega

/-- What `mem_page_bootstrap_1` leaves, also where it stops: only words of the new tables were written. -/
structure LowEnds (im : MemImage) (s : MemState) (r : EStateM.Result Stop MemState Unit) : Prop where
  writes : WritesTo im im.tab4Bootstrap 0 s.mem (final r).mem
  stage : (final r).bootStage = s.bootStage
  mapped : stops r = none → Mapped im (final r) bootstrapEnd

/-- `boot_stage` is set in mem.c only. -/
def SameStage (s s' : MemState) : Prop := s'.bootStage = s.bootStage

theorem sameStage_refl (s : MemState) : SameStage s s := rfl

section Stage

variable {α β : Type}

theorem stage_bind {x : MemM α} {f : α → MemM β} (hx : Keeps SameStage x) (hf : ∀ a, Keeps SameStage (f a)) :
    Keeps SameStage (x >>= f) :=
  .bind (fun s t u (h1 : SameStage s t) (h2 : SameStage t u) => Eq.trans h2 h1) hx hf

theorem stage_pure (a : α) : Keeps SameStage (pure a : MemM α) := .pure sameStage_refl a

theorem stage_assert (c : Prop) [Decidable c] (expr : String) : Keeps SameStage (kernelAssert c expr : MemM Unit) :=
  kernelAssert_keeps sameStage_refl c expr

theorem stage_modify {f : MemState → MemState} (h : ∀ s, (f s).bootStage = s.bootStage) : Keeps SameStage
    (modify f : MemM Unit) := h

theorem memFrameAlloc_stage (im : MemImage) : Keeps SameStage (memFrameAlloc im) :=
  .get fun _ => stage_bind (stage_assert _ _) fun _ =>
    .ite (stage_bind (stage_modify fun _ => rfl) fun _ => stage_pure _) (stage_pure _)

theorem tabEntryInit_stage (level : Nat) (present write : Bool) (padd paddSize : Nat) :
    Keeps SameStage (Mem.tabEntryInit level present write padd paddSize) :=
  fun s => congrArg MemState.bootStage (tabEntryInit_keeps level present write padd paddSize s).symm

theorem tabEntryIdx_stage (va level : Nat) : Keeps SameStage (tabEntryIdx va level) :=
  stage_bind (stage_assert _ _) fun _ => stage_pure _

theorem bootstrapTable_stage (im : MemImage) (level entryPa : Nat) (ok : Bool) :
    Keeps SameStage (bootstrapTable im level entryPa ok) := by
  refine .get fun s => .ite (stage_pure _) (stage_bind (stage_assert _ _) fun _ => stage_bind (memFrameAlloc_stage im) fun r => ?_)
  cases r with
  | none => exact stage_pure _
  | some frame =>
    refine stage_bind (stage_assert _ _) fun _ => stage_bind (tabEntryInit_stage _ _ _ _ _) fun e => ?_
    exact stage_bind (stage_modify fun _ => rfl) fun _ => stage_bind (stage_modify fun _ => rfl) fun _ => .get fun _ => stage_pure _

theorem mapBootstrapLoop_stage (im : MemImage) (va : Nat) : ∀ (lv : Nat) (ok : Bool) (tab : Nat),
    Keeps SameStage (mapBootstrapLoop im va lv ok tab)
  | 0, _, _ => stage_pure _
  | 1, _, _ => stage_pure _
  | 2, _, _ => stage_pure _
  | lv + 3, ok, tab => by
    rw [mapBootstrapLoop]
    refine stage_bind (tabEntryIdx_stage _ _) fun idx => stage_bind (bootstrapTable_stage _ _ _ _) fun r => ?_
    obtain ⟨ok', r⟩ := r
    cases r with
    | none => exact stage_pure _
    | some tab => exact mapBootstrapLoop_stage im va (lv + 2) ok' tab

theorem mapBootstrap_stage (im : MemImage) (root va pa : Nat) : Keeps SameStage (mapBootstrap im root va pa) := by
  refine stage_bind (stage_assert _ _) fun _ => stage_bind (stage_assert _ _) fun _ => ?_
  refine stage_bind (mapBootstrapLoop_stage im va 4 true root) fun r => ?_
  obtain ⟨ok, r⟩ := r
  cases ok with
  | false => exact stage_pure _
  | true =>
    cases r with
    | none => exact stage_pure _
    | some tab =>
      refine stage_bind ?_ fun _ => stage_pure _
      refine stage_bind (tabEntryIdx_stage _ _) fun idx => .get fun s => stage_bind (stage_assert _ _) fun _ => ?_
      exact stage_bind (tabEntryInit_stage _ _ _ _ _) fun e => stage_modify fun _ => rfl

end Stage

/-- The next page of the identity map. -/
theorem Mapped.next_words {e : Nat} (h : Mapped im s e) (he : e < bootstrapEnd) :
    ∃ s', mapBootstrap im im.tab4Bootstrap e e s = .ok true s' ∧
    Mapped im s' (e + 2097152) ∧ WritesTo im im.tab4Bootstrap 0 s.mem s'.mem ∧ s'.bootStage = s.bootStage := by
  obtain ⟨s', hrun, hm⟩ := h.next he
  obtain ⟨ok, p, hmap, -⟩ := mapEarly_run h.identity (view_placed im) true
  obtain ⟨s₁, hrun₁, hview⟩ := mapBootstrap_follows im.tab4Bootstrap_placed.1 e e ok p hmap
  have hstage := mapBootstrap_stage im im.tab4Bootstrap e e s
  rw [hrun] at hrun₁ hstage
  cases hrun₁
  refine ⟨s', hrun, hm, ?_, hstage⟩
  rw [show s'.mem = p.mem by rw [← hview]; rfl]
  exact mapEarly_words (view_placed im) h.identity hmap

/-- The loop of `mem_page_bootstrap_1`. -/
theorem bootstrap1Loop_ends : ∀ {n e : Nat} {s : MemState}, Mapped im s e → e ≤ bootstrapEnd →
    LowEnds im s (bootstrap1Loop im n e s)
  | 0, _, s, _, _ => ⟨.refl im _ 0 s.mem, rfl, nofun⟩
  | n + 1, e, s, h, hle => by
    rcases bootstrap1Loop_round n h.identity.align hle with ⟨rfl, hrun⟩ | ⟨hlt, hround⟩
    · rw [hrun]
      exact ⟨.refl im _ 0 s.mem, rfl, fun _ => h⟩
    · obtain ⟨s₁, hmap, h₁, hwrites, hstage⟩ := h.next_words (by omega)
      have hrest := bootstrap1Loop_ends (n := n) h₁ hlt
      rw [hround s₁ hmap]
      exact ⟨hwrites.trans hrest.writes, hrest.stage.trans hstage, hrest.mapped⟩

/-- `mem_page_bootstrap_1` at the start of the boot. -/
theorem memPageBootstrap1_ends (dbg : Bool) (im : MemImage) (mach : MemMachine) (n : Nat)
    (hstage : s.bootStage = memBootstrapStage0)
    (hc : s.frameCountBootstrap = 0) : LowEnds im s (memPageBootstrap1 dbg im mach n s) := by
  have hstop : ∀ e, LowEnds im s (.error e s) := fun e => ⟨.refl im _ 0 s.mem, rfl, nofun⟩
  have hnum : ∀ (q : Prop) [Decidable q] (expr : String) (v : Nat),
      Keeps Eq (kernelAssertD dbg q expr >>= fun _ => pure v : MemM Nat) :=
    fun q _ expr v => .eq_bind (kernelAssertD_keeps (fun _ => rfl) dbg q expr) fun _ => .pure (fun _ => rfl) v
  have hassert : ∀ (q : Prop) [Decidable q] (expr : String), Keeps Eq (kernelAssert q expr : MemM Unit) :=
    fun q _ expr => kernelAssert_keeps (fun _ => rfl) q expr
  unfold memPageBootstrap1
  rw [bind_ok (get_run s)]
  refine Keeps.check (hassert _ _) hstop fun _ => Keeps.check (hnum _ _ _) hstop fun _ => Keeps.check (hnum _ _ _) hstop fun _ => ?_
  refine Keeps.check (hassert _ _) hstop fun _ => Keeps.check (hassert _ _) hstop fun _ =>
    Keeps.check (hassert _ _) hstop fun _ => ?_
  obtain ⟨s₁, hz, h₁, hwrites, hstage₁⟩ : ∃ s₁, Mem.tabZero im.tab4Bootstrap s = .ok () s₁ ∧ Mapped im s₁ 0 ∧
      WritesTo im im.tab4Bootstrap 0 s.mem s₁.mem ∧ s₁.bootStage = s.bootStage := by
    have hearly : (early s).isEarlyStage = true := decide_eq_true (by rw [hstage]; decide)
    have hzero : staticTabZero im.tab4Bootstrap (early s) = .ok () _ := rfl
    refine ⟨_, rfl, ⟨.zeroed (view_placed im) hearly hc hzero, hc.le⟩, fun x hx => ?_, rfl⟩
    exact if_neg fun hin => hx (.inl hin)
  have hrest := bootstrap1Loop_ends (n := n) h₁ (Nat.zero_le _)
  rw [bind_ok hz]
  cases hloop : bootstrap1Loop im n 0 s₁ with
  | error e s₂ =>
    rw [hloop] at hrest
    rw [bind_error hloop]
    exact ⟨hwrites.trans hrest.writes, hrest.stage.trans hstage₁, nofun⟩
  | ok _ s₂ =>
    rw [hloop] at hrest
    have hload : tabLoadRoot im.tab4Bootstrap s₂ = .ok () s₂ := kernelAssert_pos (decide_eq_true im.tab4Bootstrap_placed.1) _ s₂
    rw [bind_ok hloop, hload]
    exact ⟨hwrites.trans hrest.writes, hrest.stage.trans hstage₁, hrest.mapped⟩

/-- The identity map that `mem_page_bootstrap_1` leaves. -/
theorem Mapped.lowMap (h : Mapped im s bootstrapEnd) : LowMap im s.frameCountBootstrap s.mem := by
  refine ⟨fun {q t} hq => ?_, fun va hva => h.identity.here va hva⟩
  cases q with
  | nil => exact .inl (Option.some.inj hq).symm
  | cons i q =>
    obtain ⟨k, hk, rfl⟩ := h.identity.pool (q := i :: q) hq nofun
    exact .inr ⟨k, hk, hk.trans_le h.identity.count, rfl⟩

end LowMap

/-! ## The map of mem_bootstrap_2 -/

/-- The whole pages of a kernel that ends at `kernEnd` are mapped to themselves. -/
def KernelLow (im : MemImage) (kernEnd : Nat) (m : Words) : Prop :=
  ∀ a < kernEnd / pageSize4K * pageSize4K, lookup m im.tab4 a = some ⟨a / pageSize4K * pageSize4K, true, false⟩

/-- What `mem_page_bootstrap_2` leaves, also where it stops. -/
structure KernelEnds (im : MemImage) (c kernEnd : Nat) (s : MemState) (r : EStateM.Result Stop MemState Unit) : Prop where
  tree : TreeFrom im c (final r)
  writes : WritesTo im im.tab4 c s.mem (final r).mem
  stage : (final r).bootStage = s.bootStage
  mapped : stops r = none → KernelLow im kernEnd (final r).mem

section KernelMap

variable {dbg : Bool} {im : MemImage} {mach : MemMachine} {c k : Nat} {s s' : MemState} {list list' : PaList}

theorem KernelLow.translate {kernEnd : Nat} {m : Words} (h : KernelLow im kernEnd m) {a : Nat}
    (ha : a < kernEnd / pageSize4K * pageSize4K) : translate m im.tab4 a = some a := by
  rw [translate_of_lookup (h a ha), Option.some.injEq]
  unfold pageSize4K
  omega

/-- The tree does not say what else is in the state. -/
theorem TreeFrom.same_mem (h : TreeFrom im c s) (hmem : s'.mem = s.mem) (hcount : s'.frameCountBootstrap = s.frameCountBootstrap)
    (hstage : s'.bootStage < memBootstrapStageFinish) : TreeFrom im c s' := by
  refine ⟨⟨fun hp hq => ?_, fun hq hne => ?_, fun hq i => ?_, hcount.trans_le h.count, hstage⟩, fun hq => ?_, hcount.symm ▸ h.le⟩
  · rw [hmem] at hp hq
    exact h.inj hp hq
  · rw [hmem] at hq
    rw [hcount]
    exact h.pool hq hne
  · rw [hmem] at hq ⊢
    exact h.entry hq i
  · rw [hmem] at hq
    exact h.page hq

theorem Extended.of_same_mem (h : TreeFrom im c s) (hmem : s'.mem = s.mem) (hcount : s'.frameCountBootstrap = s.frameCountBootstrap)
    (hstage : s'.bootStage = s.bootStage) : Extended im c s s' :=
  ⟨h.same_mem hmem hcount (hstage.trans_lt h.stage), fun va l hl => by rwa [hmem], fun x _ => by rw [hmem], hstage⟩

theorem paListNewBootstrap_extends (im : MemImage) (c nRange : Nat) : Keeps (Extends im c) (paListNewBootstrap nRange) := by
  have hassert : ∀ (q : Prop) [Decidable q] (expr : String), Keeps (Extends im c) (kernelAssert q expr : MemM Unit) :=
    fun q _ expr => kernelAssert_keeps extends_refl q expr
  have hnext : ∀ n, Keeps (Extends im c)
      (modify fun s => { s with paListBootstrapNext := s.paListBootstrapNext + n } : MemM Unit) :=
    fun n s h => .of_same_mem h rfl rfl rfl
  refine .get fun _ => .bind extends_trans (hassert _ _) fun _ => .bind extends_trans (hassert _ _) fun _ => ?_
  refine .bind extends_trans (hnext _) fun _ => .get fun _ => .bind extends_trans (hassert _ _) fun _ => ?_
  refine .bind extends_trans (hnext _) fun _ => .get fun _ => .bind extends_trans (hassert _ _) fun _ => ?_
  refine .bind extends_trans (hnext _) fun _ => .get fun _ => .bind extends_trans (hassert _ _) fun _ => ?_
  exact .pure extends_refl _

theorem paListNewBootstrap_ok {nRange : Nat} (h : paListNewBootstrap nRange s = .ok list s') : list.n = nRange := by
  unfold paListNewBootstrap at h
  rw [bind_ok (get_run s)] at h
  obtain ⟨-, h⟩ := kernelAssert_bind h
  obtain ⟨-, h⟩ := kernelAssert_bind h
  rw [bind_ok (modify_run _ _), bind_ok (get_run _)] at h
  obtain ⟨-, h⟩ := kernelAssert_bind h
  rw [bind_ok (modify_run _ _), bind_ok (get_run _)] at h
  obtain ⟨-, h⟩ := kernelAssert_bind h
  rw [bind_ok (modify_run _ _), bind_ok (get_run _)] at h
  obtain ⟨-, h⟩ := kernelAssert_bind h
  cases h
  rfl

theorem paListSetRange_extends (dbg : Bool) (im : MemImage) (c : Nat) (list : PaList) (range pa nPg : Nat) :
    Keeps (Extends im c) (paListSetRange dbg list range pa nPg) :=
  .bind extends_trans (kernelAssertD_keeps extends_refl dbg _ _) fun _ =>
    .bind extends_trans (kernelAssertD_keeps extends_refl dbg _ _) fun _ => .pure extends_refl _

theorem paListSetRange_ok {pa nPg : Nat} (h : paListSetRange dbg list 0 pa nPg s = .ok list' s') :
    list'.n = list.n ∧ list'.pa 0 = pa ∧ list'.nPg 0 = nPg := by
  unfold paListSetRange at h
  have h := kernelAssertD_bind (kernelAssertD_bind h)
  cases h
  exact ⟨rfl, Function.update_self 0 pa list.pa, Function.update_self 0 nPg list.nPg⟩

/-- The zeroed root is a tree without frames. -/
theorem TreeFrom.zeroed (h : TreeFrom im c s) (hzero : Mem.tabZero im.tab4 s = .ok () s') :
    TreeFrom im c s' ∧ WritesTo im im.tab4 c s.mem s'.mem ∧ s'.bootStage = s.bootStage := by
  obtain ⟨htree, hnode, -⟩ := Tree.zeroed h.count h.stage hzero
  cases hzero
  refine ⟨⟨htree, fun {q t} hq => ?_, h.le⟩, fun x hx => if_neg fun hin => hx (.inl hin), rfl⟩
  obtain rfl := hnode hq
  exact .inl (Option.some.inj hq).symm

/-- Behind the zeroing of the root `mem_page_bootstrap_2` only maps. -/
theorem memPageBootstrap2_extends {s₁ : MemState} (hzero : Mem.tabZero im.tab4 s = .ok () s₁) (dbg : Bool)
    (mach : MemMachine) (c k : Nat) : Extends im c s₁ (final (memPageBootstrap2 dbg im mach k s)) := by
  have hassert : ∀ (q : Prop) [Decidable q] (expr : String), Keeps (Extends im c) (kernelAssert q expr : MemM Unit) :=
    fun q _ expr => kernelAssert_keeps extends_refl q expr
  unfold memPageBootstrap2
  rw [bind_ok hzero]
  refine Keeps.bind extends_trans (hassert _ _) (fun _ => .bind extends_trans (hassert _ _) fun _ => ?_) s₁
  refine .bind extends_trans (paListNewBootstrap_extends im c _) fun pa =>
    .bind extends_trans (paListSetRange_extends dbg im c _ _ _ _) fun pa => ?_
  refine .bind extends_trans (mapImpl_extends dbg im c _ _ _ _) fun _ => .get fun _ => .bind extends_trans (hassert _ _) fun _ => ?_
  refine .bind extends_trans (hassert _ _) fun _ => .bind extends_trans (hassert _ _) fun _ => ?_
  refine .bind extends_trans (paListSetRange_extends dbg im c _ _ _ _) fun pa =>
    .bind extends_trans (fun s h => .of_same_mem h rfl rfl rfl) fun _ => ?_
  exact .bind extends_trans (mapImpl_extends dbg im c _ _ _ _) fun _ => hassert _ _

/-- Pages that were all accepted are those of low addresses. -/
theorem kernelLow_of_range {m : Words} {n : Nat} (h : ∀ j < n, Target (u64 (0 + j * pageSize4K)) ∧
    lookup m im.tab4 (0 + j * pageSize4K) = some ⟨hwPadd (u64 (0 + j * pageSize4K) + 3), true, false⟩) :
    ∀ a < n * pageSize4K, lookup m im.tab4 a = some ⟨a / pageSize4K * pageSize4K, true, false⟩ := by
  have hn : n ≤ 2 ^ 35 := by
    by_contra hlt
    have hp := (h (2 ^ 35) (by omega)).1.2
    revert hp
    decide
  intro a ha
  unfold pageSize4K at ha
  obtain ⟨htarget, hlook⟩ := h (a / 4096) (by omega)
  unfold pageSize4K at htarget hlook ⊢
  have hu : u64 (0 + a / 4096 * 4096) = a / 4096 * 4096 := by
    rw [Nat.zero_add]
    exact u64_of_lt (by omega)
  have hpage : IsPage (a / 4096 * 4096) := by
    refine ⟨Nat.mul_mod_left _ 4096, ?_⟩
    unfold va48LowEnd
    omega
  rw [hu, (present_value hpage).2.2.2, Nat.zero_add] at hlook
  rw [lookup_samePage (show SamePage a (a / 4096 * 4096) by unfold SamePage pageSize4K; omega)]
  exact hlook

/-- `mem_page_bootstrap_2`, from tables below `_tab_4` in frames from number `c` on. -/
theorem memPageBootstrap2_ends (dbg : Bool) (mach : MemMachine) (k : Nat) (h : TreeFrom im c s) (hend : mach.kernEndPa < 2 ^ 64) :
    KernelEnds im c mach.kernEndPa s (memPageBootstrap2 dbg im mach k s) := by
  obtain ⟨s₁, hzero⟩ : ∃ s₁, Mem.tabZero im.tab4 s = .ok () s₁ := ⟨_, rfl⟩
  obtain ⟨h₁, hwrites, hstage⟩ := h.zeroed hzero
  have hext := memPageBootstrap2_extends hzero dbg mach c k h₁
  refine ⟨hext.tree, hwrites.trans hext.writes, hext.stage.trans hstage, fun hok => ?_⟩
  have hrun := ok_of_stops hok
  generalize final (memPageBootstrap2 dbg im mach k s) = s' at hrun
  have hsub : u64Sub mach.kernEndPa 0 = mach.kernEndPa := u64Sub_of_le (Nat.zero_le _) hend
  unfold memPageBootstrap2 at hrun
  rw [bind_ok hzero] at hrun
  obtain ⟨-, hrun⟩ := kernelAssert_bind hrun
  obtain ⟨-, hrun⟩ := kernelAssert_bind hrun
  simp only [hsub] at hrun
  obtain ⟨list, s₂, hnew, hrun⟩ := bind_eq_ok.1 hrun
  obtain ⟨list₁, s₃, hset, hrun⟩ := bind_eq_ok.1 hrun
  obtain ⟨_, s₄, hmap, hrun⟩ := bind_eq_ok.1 hrun
  -- the state the kernel is mapped in
  have hext₂ := paListNewBootstrap_extends im c 1 s₁ h₁
  rw [hnew] at hext₂
  have hext₃ := paListSetRange_extends dbg im c list 0 0 (mach.kernEndPa / pageSize4K) s₂ hext₂.tree
  rw [hset] at hext₃
  obtain ⟨hn, hpa, hpg⟩ := paListSetRange_ok hset
  have hrange := mapImpl_range_ok hext₃.tree.toTree ⟨hn.trans (paListNewBootstrap_ok hnew), hpa, hpg⟩ (Nat.zero_mod _) hmap
  have hext₄ := mapImpl_extends dbg im c k 0 (mach.kernEndPa / pageSize4K) list₁ s₃ hext₃.tree
  rw [hmap] at hext₄
  rw [bind_ok (get_run s₄)] at hrun
  obtain ⟨-, hrun⟩ := kernelAssert_bind hrun
  obtain ⟨-, hrun⟩ := kernelAssert_bind hrun
  obtain ⟨-, hrun⟩ := kernelAssert_bind hrun
  obtain ⟨list₂, s₅, hset₂, hrun⟩ := bind_eq_ok.1 hrun
  have hext₅ := paListSetRange_extends dbg im c list₁ 0 s₄.fb (s₄.fbLen / pageSize4K) s₄ hext₄.tree
  rw [hset₂] at hext₅
  rw [bind_ok (modify_run _ s₅)] at hrun
  have hext₆ : Extended im c s₅ { s₅ with fb := va48FrameBuffer } := .of_same_mem hext₅.tree rfl rfl rfl
  obtain ⟨_, s₇, hmap₂, hrun⟩ := bind_eq_ok.1 hrun
  have hext₇ := mapImpl_extends dbg im c k va48FrameBuffer (s₄.fbLen / pageSize4K) list₂ _ hext₆.tree
  rw [hmap₂] at hext₇
  obtain ⟨-, rfl⟩ := kernelAssert_ok hrun
  intro a ha
  exact hext₇.lookup _ _ (hext₆.lookup _ _ (hext₅.lookup _ _ (kernelLow_of_range hrange a ha)))

end KernelMap

/-! ## The stages -/

/-- The tables that are active, and what is known of those to come. -/
inductive StageInv (bt : BootTables) (im : MemImage) (s : BootMachine) : Prop
  | stage0 : s.page.bootStage = memBootstrapStage0 → s.cr3 = bt.p4Table → BootMap bt s.page.mem →
      Zeroed im.tab4 pageSize4K s.page.mem → StageInv bt im s
  | stage1 {c : Nat} : s.page.bootStage = memBootstrapStage1 → s.cr3 = im.tab4Bootstrap → LowMap im c s.page.mem →
      TreeFrom im c s.page → s.frame.kernEndPa < 2 ^ 64 → StageInv bt im s
  | stage2 : s.page.bootStage = memBootstrapStage2 → s.cr3 = im.tab4 → KernelLow im s.frame.kernEndPa s.page.mem →
      TreeFrom im 0 s.page → StageInv bt im s

/-- The words of the tables of all stages. -/
def Reserved (bt : BootTables) (im : MemImage) (x : Nat) : Prop :=
  (bt.p4Table ≤ x ∧ x < bt.p4Table + 3 * pageSize4K) ∨ TableWord im im.tab4Bootstrap 0 x ∨ TableWord im im.tab4 0 x

/-- What the kernel may do: `mem_page_map` is called behind the first stage (as the debug build checks), and what the kernel writes
itself is no table. -/
def BootCall.Allowed (dbg : Bool) (bt : BootTables) (im : MemImage) (s : BootMachine) : BootCall → Prop
  | .pageMap .. => dbg = true ∨ s.page.bootStage > memBootstrapStage0
  | .writes m => ∀ x, Reserved bt im x → m x = s.page.mem x
  | _ => True

section Stages

variable {dbg : Bool} {bt : BootTables} {im : MemImage} {self c k n : Nat} {s s' : BootMachine} {m m' : Words}

theorem loadRoot_run {p4 : Nat} (hal : p4 % pageSize4K = 0) (hlt : p4 < 2 ^ 52) (s : BootMachine) :
    loadRoot p4 s = .ok () { s with cr3 := p4 } := by
  unfold loadRoot
  unfold pageSize4K at hal
  rw [modify_run, and_mask hlt, show p4 / 4096 * 4096 = p4 by omega]

theorem onFrames_page {α : Type} (x : FrameM α) (s : BootMachine) :
    (final (onFrames x s)).page = s.page ∧ (final (onFrames x s)).cr3 = s.cr3 ∧ (final (onFrames x s)).groups = s.groups := by
  unfold onFrames
  rw [final_zoom]
  exact ⟨rfl, rfl, rfl⟩

/-- In the first stage only the words of the new tables matter. -/
theorem StageInv.stage0_writes (hap : Apart3 bt im) (hstage : s.page.bootStage = memBootstrapStage0) (hcr3 : s.cr3 = bt.p4Table)
    (hmap : BootMap bt s.page.mem) (hzero : Zeroed im.tab4 pageSize4K s.page.mem) (hs' : s'.cr3 = s.cr3)
    (hstage' : s'.page.bootStage = s.page.bootStage) (hw : WritesTo im im.tab4Bootstrap 0 s.page.mem s'.page.mem) :
    BootMap bt s'.page.mem ∧ Zeroed im.tab4 pageSize4K s'.page.mem ∧ StageInv bt im s' := by
  have hmap' : BootMap bt s'.page.mem := hmap.congr fun x hx hx' => hw x (hap.boot x hx hx').1
  have hzero' : Zeroed im.tab4 pageSize4K s'.page.mem := by
    intro x hx hx'
    rw [hw x fun hword => ?_]
    · exact hzero x hx hx'
    · obtain ⟨h1, -, -⟩ := im.tab4Bootstrap_placed
      obtain ⟨h2, -, -⟩ := im.tab4_placed
      obtain ⟨h3, -, -⟩ := im.pool_placed
      have hroots := hap.roots
      have hpool := im.tab4_apart ((im.tab4 - im.framePoolBootstrap) / 4096)
      unfold TableWord pageSize4K at hword
      unfold pageSize4K at h1 h2 h3 hpool hx'
      omega
  exact ⟨hmap', hzero', .stage0 (hstage'.trans hstage) (hs'.trans hcr3) hmap' hzero'⟩

/-- A zeroed root is a tree. -/
theorem treeFrom_zero {p : MemState} (hz : Zeroed im.tab4 pageSize4K p.mem) (hc : p.frameCountBootstrap ≤ frameCapBootstrap)
    (hstage : p.bootStage < memBootstrapStageFinish) : TreeFrom im p.frameCountBootstrap p := by
  have hsame : Mem.tabZero im.tab4 p = .ok () p := by
    have hmem : (fun x => if im.tab4 ≤ x ∧ x < im.tab4 + tabEntryLen * tabEntryCount then 0 else p.mem x) = p.mem := by
      funext x
      split
      next hin => exact (hz x hin.1 hin.2).symm
      next => rfl
    unfold Mem.tabZero
    rw [modify_run, hmem]
  obtain ⟨htree, hnode, -⟩ := Tree.zeroed hc hstage hsame
  refine ⟨htree, fun {q t} hq => ?_, le_rfl⟩
  obtain rfl := hnode hq
  exact .inl (Option.some.inj hq).symm

/-- `mem_frame_bootstrap_1` leaves the tables alone; if it returns, no frame of the pool is in use. -/
theorem memFrameBootstrap1_ends (dbg : Bool) (self : Nat) (mbElf mbMmap : Bytes.Mem) (mbMmapLen : Nat)
    (hstage : s.page.bootStage = memBootstrapStage0) :
    ∀ r, memFrameBootstrap1 dbg self mbElf mbMmap mbMmapLen s = r →
      (final r).page.mem = s.page.mem ∧ (final r).page.bootStage = s.page.bootStage ∧ (final r).cr3 = s.cr3 ∧
        (stops r = none → (final r).page.frameCountBootstrap = 0 ∧ (final r).frame.kernEndPa < 2 ^ 64) := by
  rintro r rfl
  unfold memFrameBootstrap1
  rw [bind_ok (get_run s), bind_ok (kernelAssert_pos hstage _ s), bind_ok (modify_run _ s)]
  generalize hs₁ : { s with page := { s.page with frameCountBootstrap := 0, paListBootstrapNext := 0 } } = s₁
  have h₁ : s₁.page.mem = s.page.mem ∧ s₁.page.bootStage = s.page.bootStage ∧ s₁.cr3 = s.cr3 ∧ s₁.page.frameCountBootstrap = 0 := by
    rw [← hs₁]
    exact ⟨rfl, rfl, rfl, rfl⟩
  have hmmap := onFrames_page (bootstrapMmapInfo mbMmap mbMmapLen) s₁
  cases hrun : onFrames (bootstrapMmapInfo mbMmap mbMmapLen) s₁ with
  | error e s₂ =>
    rw [hrun, final_error] at hmmap
    rw [bind_error hrun, final_error, hmmap.1, hmmap.2.1]
    exact ⟨h₁.1, h₁.2.1, h₁.2.2.1, nofun⟩
  | ok _ s₂ =>
    rw [hrun, final_ok] at hmmap
    rw [bind_ok hrun]
    have helf := onFrames_page (bootstrapKernelElfSymbols dbg mbElf self) s₂
    rw [helf.1, helf.2.1, hmmap.1, hmmap.2.1]
    refine ⟨h₁.1, h₁.2.1, h₁.2.2.1, fun hok => ⟨h₁.2.2.2, ?_⟩⟩
    obtain ⟨f, hf⟩ : ∃ f, f = { s₂.frame with bootStage := s₂.page.bootStage, reads := [] } := ⟨_, rfl⟩
    have hstage₂ : f.bootStage = memBootstrapStage0 := by
      rw [hf, hmmap.1]
      exact h₁.2.1.trans hstage
    obtain ⟨f₁, hchecks, hsc⟩ := bootstrapKernelElfSymbols_run dbg mbElf self hstage₂ (by rw [hf])
    have hend : (final (onFrames (bootstrapKernelElfSymbols dbg mbElf self) s₂)).frame = f₁ := by
      unfold onFrames
      rw [final_zoom, ← hf, hchecks, elfChecks_final]
    rw [hend]
    rcases hsc.stop_of with he | ⟨i, -, -, he⟩
    · rw [he]
      exact (by norm_num : 0 < 2 ^ 64)
    · rw [he]
      exact Nat.mod_lt _ (by norm_num)

/-- `mem_bootstrap_1` goes over to its map when it returns, and stays with that of boot.asm where it stops. -/
theorem memBootstrap1_inv (hap : Apart3 bt im) (mbElf mbMmap : Bytes.Mem) (mbMmapLen n : Nat) (h : StageInv bt im s) :
    StageInv bt im (final (memBootstrap1 dbg im self mbElf mbMmap mbMmapLen n s)) := by
  unfold memBootstrap1
  rw [bind_ok (get_run s)]
  cases h with
  | stage1 hstage hcr3 hlow htree hend =>
    have hno : ¬ s.page.bootStage = memBootstrapStage0 := by rw [hstage]; decide
    rw [bind_error (kernelAssert_neg hno _ s)]
    exact .stage1 hstage hcr3 hlow htree hend
  | stage2 hstage hcr3 hlow htree =>
    have hno : ¬ s.page.bootStage = memBootstrapStage0 := by rw [hstage]; decide
    rw [bind_error (kernelAssert_neg hno _ s)]
    exact .stage2 hstage hcr3 hlow htree
  | stage0 hstage hcr3 hmap hzero =>
    rw [bind_ok (kernelAssert_pos hstage _ s)]
    obtain ⟨hmem, hstage₁, hcr3₁, hok⟩ := memFrameBootstrap1_ends dbg self mbElf mbMmap mbMmapLen hstage _ rfl
    cases hframe : memFrameBootstrap1 dbg self mbElf mbMmap mbMmapLen s with
    | error e s₁ =>
      rw [hframe, final_error] at hmem hstage₁ hcr3₁
      rw [bind_error hframe]
      exact (StageInv.stage0_writes hap hstage hcr3 hmap hzero hcr3₁ hstage₁ fun x _ => by rw [hmem]).2.2
    | ok _ s₁ =>
      rw [hframe, final_ok] at hmem hstage₁ hcr3₁ hok
      obtain ⟨hcount, hend⟩ := hok rfl
      obtain ⟨hmap₁, hzero₁, -⟩ := StageInv.stage0_writes hap hstage hcr3 hmap hzero hcr3₁ hstage₁ fun x _ => by rw [hmem]
      rw [bind_ok hframe, bind_ok (get_run s₁)]
      have hends := memPageBootstrap1_ends dbg im s₁.frame.toMemMachine n (hstage₁.trans hstage) hcount
      cases hpage : memPageBootstrap1 dbg im s₁.frame.toMemMachine n s₁.page with
      | error e p =>
        rw [hpage] at hends
        have hzoom : onPages (memPageBootstrap1 dbg im s₁.frame.toMemMachine n) s₁ = .error e { s₁ with page := p } := by
          unfold onPages zoom
          rw [hpage]
        rw [bind_error hzoom]
        exact (@StageInv.stage0_writes bt im s₁ { s₁ with page := p } hap (hstage₁.trans hstage) (hcr3₁.trans hcr3) hmap₁ hzero₁ rfl
          hends.stage hends.writes).2.2
      | ok _ p =>
        rw [hpage] at hends
        have hzoom : onPages (memPageBootstrap1 dbg im s₁.frame.toMemMachine n) s₁ = .ok () { s₁ with page := p } := by
          unfold onPages zoom
          rw [hpage]
        have hmapped : Mapped im p bootstrapEnd := hends.mapped rfl
        obtain ⟨-, hzero₂, -⟩ :=
          @StageInv.stage0_writes bt im s₁ { s₁ with page := p } hap (hstage₁.trans hstage) (hcr3₁.trans hcr3) hmap₁
          hzero₁ rfl hends.stage hends.writes
        have hplaced := im.tab4Bootstrap_placed
        have hlt : im.tab4Bootstrap < 2 ^ 52 := by
          have := hplaced.2.2
          unfold va48LowEnd pageSize4K at this
          omega
        have hp0 : p.bootStage = memBootstrapStage0 := hends.stage.trans (hstage₁.trans hstage)
        have htree : TreeFrom im p.frameCountBootstrap { p with bootStage := memBootstrapStage1 } :=
          @treeFrom_zero im { p with bootStage := memBootstrapStage1 } hzero₂ hmapped.identity.count
            (show memBootstrapStage1 < memBootstrapStageFinish by decide)
        rw [bind_ok hzoom, bind_ok (loadRoot_run hplaced.1 hlt _)]
        exact .stage1 rfl rfl hmapped.lowMap htree hend

/-- `mem_frame_bootstrap_2` leaves the range of the kernel alone. -/
def SameKernel (f f' : FrameState) : Prop := f'.kernEndPa = f.kernEndPa

theorem sameKernel_refl (f : FrameState) : SameKernel f f := rfl

theorem sameKernel_trans (f g e : FrameState) (h : SameKernel f g) (h' : SameKernel g e) : SameKernel f e := Eq.trans h' h

section FrameMap

variable (dev : MemDevices)

theorem memAlignUp_keeps (p align : Nat) : Keeps Eq (memAlignUp p align) :=
  .eq_bind (kernelAssert_keeps (fun _ => rfl) _ _) fun _ => .eq_bind (kernelAssert_keeps (fun _ => rfl) _ _) fun _ =>
    .pure (fun _ => rfl) _

theorem sectionCheck_keeps (sec : MemSection) : Keeps Eq (sectionCheck dev sec) :=
  .eq_bind (kernelAssert_keeps (fun _ => rfl) _ _) fun _ => kernelAssert_keeps (fun _ => rfl) _ _

theorem paLenLoop_keeps : ∀ n, Keeps Eq (paLenLoop dev n)
  | 0 => .pure (fun _ => rfl) _
  | n + 1 => .eq_bind (paLenLoop_keeps n) fun _ => .get fun _ =>
      .ite (.eq_bind (sectionCheck_keeps dev _) fun _ => .pure (fun _ => rfl) _) (.pure (fun _ => rfl) _)

theorem placeRound_kernel (mapPageCnt n : Nat) : Keeps SameKernel (placeRound dev mapPageCnt n) := by
  intro s
  unfold placeRound
  rw [bind_ok (get_run s)]
  split
  · refine Keeps.check (P := fun r => SameKernel s (final r)) (sectionCheck_keeps dev _) (fun _ => sameKernel_refl s) fun _ => ?_
    split
    · refine Keeps.check (P := fun r => SameKernel s (final r)) (memAlignUp_keeps _ _)
        (fun _ => sameKernel_refl s) fun frameMap => ?_
      rw [bind_ok (set_run s _)]
      exact kernelAssert_keeps sameKernel_refl _ _ _
    · exact sameKernel_refl s
  · exact sameKernel_refl s

theorem placeLoop_kernel (mapPageCnt : Nat) : ∀ n, Keeps SameKernel (placeLoop dev mapPageCnt n)
  | 0 => .pure sameKernel_refl _
  | n + 1 => .bind sameKernel_trans (placeLoop_kernel mapPageCnt n) fun _ => placeRound_kernel dev mapPageCnt n

theorem memFrameBootstrap2_kernel : Keeps SameKernel (memFrameBootstrap2 dev) := by
  intro s
  unfold memFrameBootstrap2
  rw [bind_ok (get_run s)]
  refine Keeps.check (P := fun r => SameKernel s (final r)) (paLenLoop_keeps dev _) (fun _ => sameKernel_refl s) fun paLen => ?_
  exact placeLoop_kernel dev _ _ { s with frameMapCap := _, frameMap := 0 }

end FrameMap

/-- `mem_bootstrap_2` goes over to the map of the kernel when it returns, and stays with the map before where it stops. -/
theorem memBootstrap2_inv (hap : Apart3 bt im) (k : Nat) (h : StageInv bt im s) :
    StageInv bt im (final (memBootstrap2 dbg im k s)) := by
  unfold memBootstrap2
  rw [bind_ok (get_run s)]
  cases h with
  | stage0 hstage hcr3 hmap hzero =>
    have hno : ¬ s.page.bootStage = memBootstrapStage1 := by rw [hstage]; decide
    rw [bind_error (kernelAssert_neg hno _ s)]
    exact .stage0 hstage hcr3 hmap hzero
  | stage2 hstage hcr3 hlow htree =>
    have hno : ¬ s.page.bootStage = memBootstrapStage1 := by rw [hstage]; decide
    rw [bind_error (kernelAssert_neg hno _ s)]
    exact .stage2 hstage hcr3 hlow htree
  | @stage1 c hstage hcr3 hlow htree hend =>
    rw [bind_ok (kernelAssert_pos hstage _ s)]
    obtain ⟨hpage, hcr3₁, -⟩ := onFrames_page (memFrameBootstrap2 ⟨s.page.fb, s.page.fbLen, s.groups⟩) s
    have hkern : (final (onFrames (memFrameBootstrap2 ⟨s.page.fb, s.page.fbLen, s.groups⟩) s)).frame.kernEndPa =
        s.frame.kernEndPa := by
      unfold onFrames
      rw [final_zoom]
      exact memFrameBootstrap2_kernel _ _
    cases hframe : onFrames (memFrameBootstrap2 ⟨s.page.fb, s.page.fbLen, s.groups⟩) s with
    | error e s₁ =>
      rw [hframe, final_error] at hpage hcr3₁ hkern
      rw [bind_error hframe, final_error]
      rw [← hpage] at hstage hlow htree
      exact .stage1 hstage (hcr3₁.trans hcr3) hlow htree (hkern.trans_lt hend)
    | ok _ s₁ =>
      rw [hframe, final_ok] at hpage hcr3₁ hkern
      rw [← hpage] at hstage hlow htree
      rw [bind_ok hframe, bind_ok (get_run s₁)]
      have hends := memPageBootstrap2_ends dbg s₁.frame.toMemMachine k htree (hkern.trans_lt hend)
      cases hrun : memPageBootstrap2 dbg im s₁.frame.toMemMachine k s₁.page with
      | error e p =>
        rw [hrun] at hends
        have hzoom : onPages (memPageBootstrap2 dbg im s₁.frame.toMemMachine k) s₁ = .error e { s₁ with page := p } := by
          unfold onPages zoom
          rw [hrun]
        rw [bind_error hzoom]
        exact .stage1 (hends.stage.trans hstage) (hcr3₁.trans hcr3) (hlow.writes hap hends.writes) hends.tree (hkern.trans_lt hend)
      | ok _ p =>
        rw [hrun] at hends
        have hzoom : onPages (memPageBootstrap2 dbg im s₁.frame.toMemMachine k) s₁ = .ok () { s₁ with page := p } := by
          unfold onPages zoom
          rw [hrun]
        have hplaced := im.tab4_placed
        have hlt : im.tab4 < 2 ^ 52 := by
          have := hplaced.2.2
          unfold va48LowEnd pageSize4K at this
          omega
        have htree₂ : TreeFrom im c { p with bootStage := memBootstrapStage2 } :=
          hends.tree.same_mem rfl rfl (show memBootstrapStage2 < memBootstrapStageFinish by decide)
        rw [bind_ok hzoom, bind_ok (loadRoot_run hplaced.1 hlt _)]
        exact .stage2 rfl rfl (hends.mapped rfl) htree₂.toTree.from_zero

theorem memBootstrap3_inv (h : StageInv bt im s) : StageInv bt im (final (memBootstrap3 s)) := by
  unfold memBootstrap3
  rw [bind_ok (get_run s)]
  cases h with
  | stage0 hstage hcr3 hmap hzero =>
    have hno : ¬ s.page.bootStage = memBootstrapStage2 := by rw [hstage]; decide
    rw [bind_error (kernelAssert_neg hno _ s)]
    exact .stage0 hstage hcr3 hmap hzero
  | stage1 hstage hcr3 hlow htree hend =>
    have hno : ¬ s.page.bootStage = memBootstrapStage2 := by rw [hstage]; decide
    rw [bind_error (kernelAssert_neg hno _ s)]
    exact .stage1 hstage hcr3 hlow htree hend
  | stage2 hstage hcr3 hlow htree =>
    rw [bind_ok (kernelAssert_pos hstage _ s)]
    exact .stage2 rfl hcr3 hlow (htree.same_mem rfl rfl (show memBootstrapStage3 < memBootstrapStageFinish by decide))

/-- `mem_page_map` only adds to the map of the last stage. -/
theorem memPageMap_inv (hap : Apart3 bt im) {va nPg : Nat} {pa : PaList}
    (hallow : dbg = true ∨ s.page.bootStage > memBootstrapStage0)
    (h : StageInv bt im s) : StageInv bt im (final (onPages (memPageMap dbg im k va nPg pa) s)) := by
  have hrun : final (onPages (memPageMap dbg im k va nPg pa) s) =
      { s with page := final (memPageMap dbg im k va nPg pa s.page) } := by
    unfold onPages
    rw [final_zoom]
  have hext : ∀ c, Keeps (Extends im c) (memPageMap dbg im k va nPg pa) := fun c =>
    .get fun _ => .bind extends_trans (kernelAssertD_keeps extends_refl dbg _ _) fun _ => mapImpl_extends dbg im c k va nPg pa
  rw [hrun]
  cases h with
  | stage0 hstage hcr3 hmap hzero =>
    have hno : ¬ s.page.bootStage > memBootstrapStage0 := by rw [hstage]; decide
    have hdbg : dbg = true := hallow.resolve_right hno
    have herr : memPageMap dbg im k va nPg pa s.page = .error (.assertFail "boot_stage > MEM_BOOTSTRAP_STAGE_0") s.page := by
      unfold memPageMap
      rw [hdbg, bind_ok (get_run s.page)]
      exact bind_error (kernelAssert_neg hno _ s.page)
    rw [herr]
    exact .stage0 hstage hcr3 hmap hzero
  | @stage1 c hstage hcr3 hlow htree hend =>
    have hx := hext c s.page htree
    exact .stage1 (hx.stage.trans hstage) hcr3 (hlow.writes hap hx.writes) hx.tree hend
  | stage2 hstage hcr3 hlow htree =>
    have hx := hext 0 s.page htree
    exact .stage2 (hx.stage.trans hstage) hcr3 (fun a ha => hx.lookup a _ (hlow a ha)) hx.tree

theorem TableWord.mono {root x : Nat} (h : TableWord im root c x) : TableWord im root 0 x := by
  unfold TableWord at *
  omega

/-- The tree lies in its words. -/
theorem TreeFrom.congr {p : MemState} (h : TreeFrom im c p) (hm : SameTables im.tab4 p.mem m) :
    TreeFrom im c { p with mem := m } := by
  have hnode : ∀ {q}, tableAt im m q = tableAt im p.mem q := fun {q} => hm.node q
  refine ⟨⟨fun {q q' t} hq hq' => ?_, fun {q t} hq hne => ?_, fun {q t} hq i => ?_, h.count, h.stage⟩, fun {q t} hq => ?_, h.le⟩
  · exact h.inj (hnode.symm.trans hq) (hnode.symm.trans hq')
  · exact h.pool (hnode.symm.trans hq) hne
  · have hq := hnode.symm.trans hq
    show Entry q.length (m (t + tabEntryLen * i))
    rw [hm q t hq i]
    exact h.entry hq i
  · exact h.page (hnode.symm.trans hq)

/-- Nothing the kernel writes elsewhere changes a table. -/
theorem writes_inv (hm : ∀ x, Reserved bt im x → m x = s.page.mem x) (h : StageInv bt im s) :
    StageInv bt im { s with page := { s.page with mem := m } } := by
  have hlate : ∀ {c}, TreeFrom im c s.page → SameTables im.tab4 s.page.mem m := fun htree q t hq i =>
    hm _ (.inr (.inr ((htree.page hq).entry i).mono))
  cases h with
  | stage0 hstage hcr3 hmap hzero =>
    refine .stage0 hstage hcr3 (hmap.congr fun x hx hx' => hm x (.inl ⟨hx, hx'⟩)) fun x hx hx' => ?_
    exact (hm x (.inr (.inr (.inl ⟨hx, hx'⟩)))).trans (hzero x hx hx')
  | @stage1 c hstage hcr3 hlow htree hend =>
    refine .stage1 hstage hcr3 (hlow.congr fun q t hq i => hm _ (.inr (.inl ?_))) (htree.congr (hlate htree)) hend
    have hpage : TablePage im im.tab4Bootstrap 0 t := (hlow.page hq).imp_right fun ⟨k, _, hk, ht⟩ => ⟨k, Nat.zero_le k, hk, ht⟩
    exact hpage.entry i
  | stage2 hstage hcr3 hlow htree =>
    exact .stage2 hstage hcr3 (fun a ha => ((hlate htree).lookup a).trans (hlow a ha)) (htree.congr (hlate htree))

/-- Every step of the boot keeps the tables that are active, or goes over to the next ones. -/
theorem BootCall.run_inv (hap : Apart3 bt im) (call : BootCall) (hallow : call.Allowed dbg bt im s) (h : StageInv bt im s) :
    StageInv bt im (final (call.run dbg im self s)) := by
  cases call with
  | bootstrap1 mbElf mbMmap mbMmapLen n => exact memBootstrap1_inv hap mbElf mbMmap mbMmapLen n h
  | bootstrap2 k => exact memBootstrap2_inv hap k h
  | bootstrap3 => exact memBootstrap3_inv h
  | pageMap k va nPg pa => exact memPageMap_inv hap hallow h
  | drivers fb fbLen groups =>
    have hsame : ∀ {c}, TreeFrom im c s.page → TreeFrom im c { s.page with fb := fb, fbLen := fbLen } := fun htree =>
      htree.same_mem rfl rfl htree.stage
    cases h with
    | stage0 hstage hcr3 hmap hzero => exact .stage0 hstage hcr3 hmap hzero
    | stage1 hstage hcr3 hlow htree hend => exact .stage1 hstage hcr3 hlow (hsame htree) hend
    | stage2 hstage hcr3 hlow htree => exact .stage2 hstage hcr3 hlow (hsame htree)
  | writes m => exact writes_inv hallow h

end Stages

/-- The states of a boot. boot.asm starts it, with the static variables zero; where a call stops, the state is the one it left. -/
inductive Booting (dbg : Bool) (bt : BootTables) (im : MemImage) (self : Nat) : BootMachine → Prop
  | start {m : Words} {s : BootMachine} : Zeroed bt.p4Table (3 * pageSize4K) m → Zeroed im.tab4 pageSize4K m →
      s.page.mem = setUpPageTables bt m → s.page.bootStage = memBootstrapStage0 → s.cr3 = bt.p4Table → Booting dbg bt im self s
  | call {s : BootMachine} (c : BootCall) : Booting dbg bt im self s → c.Allowed dbg bt im s →
      Booting dbg bt im self (final (c.run dbg im self s))

section Boot

variable {dbg : Bool} {bt : BootTables} {im : MemImage} {self : Nat} {s : BootMachine}

theorem Booting.inv (hap : Apart3 bt im) (h : Booting dbg bt im self s) : StageInv bt im s := by
  induction h with
  | @start m s hboot hzero hmem hstage hcr3 =>
    refine .stage0 hstage hcr3 (hmem ▸ setUpPageTables_map hboot) fun x hx hx' => ?_
    have hout : x < bt.p4Table ∨ bt.p4Table + 3 * pageSize4K ≤ x := by
      by_contra hin
      exact (hap.boot x (by omega) (by omega)).2 (.inl ⟨hx, hx'⟩)
    rw [hmem, setUpPageTables_other hout]
    exact hzero x hx hx'
  | call c _ hallow ih => exact c.run_inv hap hallow ih

/-- At every moment of the boot the tables that CR3 leads to map to itself what the stage promises: the first gigabyte, the first
terabyte but for its last 2M, the whole pages of the kernel. -/
theorem identity_throughout (hap : Apart3 bt im) (h : Booting dbg bt im self s) :
    (s.page.bootStage = memBootstrapStage0 ∧ s.cr3 = bt.p4Table ∧ ∀ a < 2 ^ 30, translate s.page.mem s.cr3 a = some a) ∨
    (s.page.bootStage = memBootstrapStage1 ∧ s.cr3 = im.tab4Bootstrap ∧
      ∀ a < paMax - pageSize2M, translate s.page.mem s.cr3 a = some a) ∨
    (s.page.bootStage = memBootstrapStage2 ∧ s.cr3 = im.tab4 ∧
      ∀ a < s.frame.kernEndPa / pageSize4K * pageSize4K, translate s.page.mem s.cr3 a = some a) := by
  cases h.inv hap with
  | stage0 hstage hcr3 hmap _ =>
    refine .inl ⟨hstage, hcr3, fun a ha => ?_⟩
    rw [hcr3]
    exact translate_of_page2M (hmap.lookup ha) (by omega)
  | stage1 hstage hcr3 hlow _ _ =>
    refine .inr (.inl ⟨hstage, hcr3, fun a ha => ?_⟩)
    rw [hcr3]
    exact hlow.translate ha
  | stage2 hstage hcr3 hlow _ =>
    refine .inr (.inr ⟨hstage, hcr3, fun a ha => ?_⟩)
    rw [hcr3]
    exact hlow.translate ha

/-- The tables of boot.asm a megabyte behind those of mem_page.c. -/
def bootTables₀ : BootTables := ⟨0x300000, by decide, by decide, by decide⟩

theorem apart₀ : Apart3 bootTables₀ memImage₀ := by
  have hp4 : bootTables₀.p4Table = 0x300000 := rfl
  have hlow : memImage₀.tab4Bootstrap = 0x200000 := rfl
  have htab : memImage₀.tab4 = 0x201000 := rfl
  have hpool : memImage₀.framePoolBootstrap = 0x1000000 := rfl
  refine ⟨fun x hx hx' => ?_, by decide⟩
  unfold TableWord pageSize4K at *
  omega

/-- The machine when boot.asm is done. -/
def bootMachine₀ : BootMachine := ⟨{ memState₀ with mem := setUpPageTables bootTables₀ memState₀.mem }, frameState₀, [], 0x300000⟩

theorem identity_throughout_machine₀ : ∃ s : BootMachine, Booting true bootTables₀ memImage₀ 0x200800 s ∧
    ((s.page.bootStage = memBootstrapStage0 ∧ s.cr3 = bootTables₀.p4Table ∧ ∀ a < 2 ^ 30, translate s.page.mem s.cr3 a = some a) ∨
    (s.page.bootStage = memBootstrapStage1 ∧ s.cr3 = memImage₀.tab4Bootstrap ∧
      ∀ a < paMax - pageSize2M, translate s.page.mem s.cr3 a = some a) ∨
    (s.page.bootStage = memBootstrapStage2 ∧ s.cr3 = memImage₀.tab4 ∧
      ∀ a < s.frame.kernEndPa / pageSize4K * pageSize4K, translate s.page.mem s.cr3 a = some a)) := by
  have hstart : Booting true bootTables₀ memImage₀ 0x200800 bootMachine₀ :=
    @Booting.start _ _ _ _ memState₀.mem bootMachine₀ (fun _ _ _ => rfl) (fun _ _ _ => rfl) rfl rfl rfl
  have hallow : ∀ mbElf mbMmap n, (BootCall.bootstrap1 mbElf mbMmap 56 n).Allowed true bootTables₀ memImage₀ bootMachine₀ :=
    fun _ _ _ => trivial
  have hboot := hstart.call _ (hallow (elfOf 0x200000 0x1000) (mmapOf ⟨0, 0x9f000⟩ ⟨0x100000, 0x7f00000⟩) (2 ^ 19))
  exact ⟨_, hboot, identity_throughout apart₀ hboot⟩

end Boot

end Mem

end Cing
