/-
Runs of frames and page tables: from a state in which `_init_direct_access` has linked the window, any
sequence of calls whose frees keep to frames that are neither free already nor page tables. The
invariant holds in every state reached; the results about ownership of frames, about translations and
about mapping and unmapping lists of pages are read off it.
-/
import Cing.Mm.Page.Setup
import Cing.Mm.Page.Unmap

namespace Cing.Page

open Linked

/-! ## What a state says -/

section State

variable (im : Image) (s : PageState)

/-- The frame is on the free list. -/
def OnFreeList (f : Nat) : Prop := ∃ F, Chain 0 s.mem s.freeHead F ∧ f ∈ F

/-- The page is a table linked below `_tab_4`. -/
def IsTable (t : Nat) : Prop := ∃ p, node im s.mem p = some t

/-- A frame that is not on the free list and not a table. -/
def NotInUse (f : Nat) : Prop := IsFrame f ∧ ¬ OnFreeList s f ∧ ¬ IsTable im s f

/-- A state after `_init_direct_access`: the tables below `_tab_4` form a tree in which the window is
linked and closed, only the 2M pages of the early stage are mapped, and the free list holds distinct
frames none of which is a table. -/
structure Start : Prop where
  tree : Tree im s.mem
  window : s.mem (directTabEntry im) = 0
  stage : s.isEarlyStage = false
  early : ∀ va l, lookup s.mem im.tab4 va = some l → l.huge = true
  free : ∃ F, Chain 0 s.mem s.freeHead F ∧ F.Nodup ∧ mmFrameFreeCount s = F.length ∧ ∀ f ∈ F, IsFrame f ∧ ¬ IsTable im s f

end State

variable {im : Image} {s s' : PageState} {F : List Nat} {f va : Nat}

theorem Start.inv (h : Start im s) : ∃ F, Inv im s F := by
  obtain ⟨F, hc, hnd, hcount, hF⟩ := h.free
  exact ⟨F, h.tree, h.window, h.stage, hc, hnd, hcount, fun f hf => (hF f hf).1, fun f hf q hq => (hF f hf).2 ⟨q, hq⟩⟩

/-- `_init_direct_access` leads to a start, if only 2M pages are mapped by then. -/
theorem Early.start (h : Early im s F) (hearly : ∀ va l, lookup s.mem im.tab4 va = some l → l.huge = true) :
    ∃ s', initDirectAccess im s = .ok () s' ∧ Start im s' := by
  obtain ⟨m, hrun, hinv, hl⟩ := initDirectAccess_run h
  refine ⟨_, hrun, hinv.tree, hinv.window, hinv.stage, fun va l hva => hearly va l ((hl.lookup va).symm.trans hva),
    F, hinv.chain, hinv.nodup, hinv.count, fun f hf => ⟨hinv.frames f hf, fun ⟨q, hq⟩ => hinv.notTable f hf q hq⟩⟩

theorem Inv.onFreeList (h : Inv im s F) : OnFreeList s f ↔ f ∈ F := by
  constructor
  · rintro ⟨F', hc, hf⟩
    rwa [hc.unique h.chain] at hf
  · exact fun hf => ⟨F, h.chain, hf⟩

theorem Inv.unused (h : Inv im s F) (hf : NotInUse im s f) : Unused im s F f :=
  ⟨hf.1, fun hm => hf.2.1 (h.onFreeList.2 hm), fun q hq => hf.2.2 ⟨q, hq⟩⟩

/-! ## Tables after a call -/

/-- The tables after a call that keeps those there were and links those of `N`. -/
theorem isTable_linked {N : List Nat} {t : Nat} (hold : ∀ {q t}, node im s.mem q = some t → node im s'.mem q = some t)
    (hnew : ∀ {q t}, node im s'.mem q = some t → node im s.mem q = some t ∨ t ∈ N)
    (hlinked : ∀ t ∈ N, ∃ q, node im s'.mem q = some t) : IsTable im s' t ↔ IsTable im s t ∨ t ∈ N := by
  constructor
  · rintro ⟨q, hq⟩
    exact (hnew hq).imp_left fun hq => ⟨q, hq⟩
  · rintro (⟨q, hq⟩ | ht)
    · exact ⟨q, hold hq⟩
    · exact hlinked t ht

theorem Grown.isTable {N : List Nat} (h : Grown im va s s' N) {t : Nat} : IsTable im s' t ↔ IsTable im s t ∨ t ∈ N :=
  isTable_linked h.old (fun hq => (h.new hq).imp_right And.left) h.linked

theorem Mapped.isTable {pa : Nat} {N : List Nat} (h : Mapped im va pa s s' N) {t : Nat} :
    IsTable im s' t ↔ IsTable im s t ∨ t ∈ N :=
  isTable_linked h.old h.new h.linked

theorem Unmapped.isTable {d : Nat} {R : List Nat} (h : Unmapped im va d s s' R) {t : Nat} :
    IsTable im s' t ↔ IsTable im s t ∧ t ∉ R := by
  constructor
  · rintro ⟨q, hq⟩; exact ⟨⟨q, (h.node.1 hq).1⟩, (h.node.1 hq).2⟩
  · rintro ⟨⟨q, hq⟩, ht⟩; exact ⟨q, h.node.2 ⟨hq, ht⟩⟩

/-- `_unmap` of a 4K page. -/
theorem unmap4K_run (h : Inv im s F) {l : Leaf} (hl : lookup s.mem im.tab4 va = some l) (hh : l.huge = false)
    (hal : va % 4096 = 0) (h64 : va < 2 ^ 64) (hu : Unused im s F l.base) :
    ∃ s' R, unmap im va pageSize4K true s = .ok l.base s' ∧ Inv im s' (R ++ l.base :: F) ∧ Unmapped im va 3 s s' R := by
  have hsize : l.size = pageSize4K := by unfold Leaf.size; rw [hh]; rfl
  have hdepth : l.depth = 3 := by unfold Leaf.depth; rw [hh]; rfl
  have hframes : l.frames = [l.base] := by unfold Leaf.frames; rw [hh]; rfl
  have hal' : va % l.size = 0 := by rw [hsize]; exact hal
  have hunused : true = true → ∀ f ∈ l.frames, Unused im s F f := by
    intro _ f hf
    rw [hframes, List.mem_singleton] at hf
    rw [hf]
    exact hu
  obtain ⟨s₁, F₁, hfree, h₁, hsame, hF, -⟩ := unmapFree_run h hl hal' h64 hunused
  obtain ⟨s', R, hrun, h', hun⟩ := unmap_run h hl hal' hfree h₁ hsame
  rw [hF hh] at h'
  rw [hsize] at hrun
  rw [hdepth] at hun
  exact ⟨s', R, hrun, h', hun⟩

/-! ## The invariant after a call -/

theorem Inv.after_alloc (h : Inv im s F) {r : Option Nat} (hrun : mmFrameAlloc im s = .ok r s') : ∃ F', Inv im s' F' := by
  cases r with
  | none =>
    obtain ⟨-, rfl⟩ := mmFrameAlloc_none h hrun
    exact ⟨F, h⟩
  | some f =>
    obtain ⟨F, rfl, -, rfl⟩ := mmFrameAlloc_some h hrun
    exact ⟨F, h.pop.1⟩

theorem Inv.after_free (h : Inv im s F) (hf : NotInUse im s f) (ht : translate s.mem im.tab4 va = some f)
    (hrun : mmFrameFree im va f s = .ok () s') : ∃ F', Inv im s' F' := by
  rw [mmFrameFree_run f ht] at hrun
  cases hrun
  exact ⟨f :: F, (h.push (h.unused hf)).1⟩

theorem Inv.unmap_returns (h : Inv im s F) {l : Leaf} (hl : lookup s.mem im.tab4 va = some l) (hal : va % l.size = 0)
    (h64 : va < 2 ^ 64) {free : Bool} (hfree : free = true → ∀ f ∈ l.frames, NotInUse im s f) :
    ∃ s' F', unmap im va l.size free s = .ok l.base s' ∧ Inv im s' F' := by
  obtain ⟨s₁, F₁, hrun₁, h₁, hsame, -⟩ := unmapFree_run h hl hal h64 fun hf f hm => h.unused (hfree hf f hm)
  obtain ⟨s', R, hrun, h', -⟩ := unmap_run h hl hal hrun₁ h₁ hsame
  exact ⟨s', _, hrun, h'⟩

theorem Inv.after_write (h : Inv im s F) {x : Nat} (v : Nat) (ht : ∀ t, IsTable im s t → x < t ∨ t + 4096 ≤ x)
    (hf : ¬ OnFreeList s x) : Inv im (withWord s x v) F ∧ (∀ q, node im (withWord s x v).mem q = node im s.mem q) ∧
      ∀ va, lookup (withWord s x v).mem im.tab4 va = lookup s.mem im.tab4 va := by
  have htab : ∀ q t, node im s.mem q = some t → ∀ i : Fin 512, t + tabEntryLen * i ≠ x := by
    intro q t hq i
    have := ht t ⟨q, hq⟩
    have hi := i.isLt
    unfold tabEntryLen
    omega
  have hfree : ∀ f ∈ F, f ≠ x := by
    rintro f hm rfl
    exact hf (h.onFreeList.2 hm)
  exact h.congr (withWord s x v).mem (fun q t hq i => Function.update_of_ne (htab q t hq i) _ _)
    fun f hm => Function.update_of_ne (hfree f hm) _ _

/-! ## Reachable states -/

/-- The states reached by calls that free only frames not in use, with writes of memory that is neither
a table nor a free frame in between. -/
inductive Reach (im : Image) : PageState → Prop
  | start {s : PageState} : Start im s → Reach im s
  | alloc {s s' : PageState} {r : Option Nat} : Reach im s → mmFrameAlloc im s = .ok r s' → Reach im s'
  | free {s s' : PageState} {va f : Nat} : Reach im s → NotInUse im s f → translate s.mem im.tab4 va = some f →
      mmFrameFree im va f s = .ok () s' → Reach im s'
  | freeWindow {s s' : PageState} {f : Nat} : Reach im s → NotInUse im s f → returnFrame im f s = .ok () s' → Reach im s'
  | map {s s' : PageState} {va pa : Nat} {ok : Bool} : Reach im s → va % 4096 = 0 → ¬ SamePage va directVadd →
      lookup s.mem im.tab4 va = none → IsPage pa → mmPageMap im va pa s = .ok ok s' → Reach im s'
  | unmap {s s' : PageState} {va pa : Nat} {l : Leaf} {free : Bool} : Reach im s → va < 2 ^ 64 →
      lookup s.mem im.tab4 va = some l → va % l.size = 0 → (free = true → ∀ f ∈ l.frames, NotInUse im s f) →
      unmap im va l.size free s = .ok pa s' → Reach im s'
  | write {s : PageState} {x v : Nat} : Reach im s → (∀ t, IsTable im s t → x < t ∨ t + 4096 ≤ x) → ¬ OnFreeList s x →
      Reach im (withWord s x v)

theorem Reach.inv (h : Reach im s) : ∃ F, Inv im s F := by
  induction h with
  | start h => exact h.inv
  | alloc _ hs ih =>
    obtain ⟨F, h⟩ := ih
    exact h.after_alloc hs
  | free _ hf ht hs ih =>
    obtain ⟨F, h⟩ := ih
    exact h.after_free hf ht hs
  | freeWindow _ hf hs ih =>
    obtain ⟨F, h⟩ := ih
    rw [returnFrame_run h (h.unused hf) (returnFrame_page h hf.1 hs)] at hs
    cases hs
    exact ⟨_, (h.push (h.unused hf)).1⟩
  | map _ hal hva hnone hpa hs ih =>
    obtain ⟨F, h⟩ := ih
    obtain ⟨F', N, h', -⟩ := mmPageMap_ok h hal hva hnone hpa hs
    exact ⟨F', h'⟩
  | unmap _ h64 hl hal hfree hs ih =>
    obtain ⟨F, h⟩ := ih
    obtain ⟨s', F', hrun, h'⟩ := h.unmap_returns hl hal h64 hfree
    rw [hs] at hrun
    cases hrun
    exact ⟨F', h'⟩
  | write _ ht hf ih =>
    obtain ⟨F, h⟩ := ih
    exact ⟨F, (h.after_write _ ht hf).1⟩

/-! ## A small machine -/

/-- Static tables at fixed addresses. -/
def image₀ : Image := ⟨0x100000, 0x200000, 0x300000, 0x1000000, rfl, rfl, rfl⟩

/-- The same with the pool right behind the space of the window. -/
def image₁ : Image := ⟨0x100000, 0x200000, 0x180000, 0x203000, rfl, rfl, rfl⟩

/-- Six free frames and an empty `_tab_4`. -/
def early₀ : PageState where
  mem := fun x => if 0x400000 ≤ x ∧ x < 0x405000 ∧ x % 4096 = 0 then x + 4096 else 0
  freeHead := 0x400000
  freeCount := 6
  earlyFrameCount := 0
  isEarlyStage := false

def frames₀ : List Nat := [0x400000, 0x401000, 0x402000, 0x403000, 0x404000, 0x405000]

theorem early₀_tab4 (i : Fin 512) : early₀.mem (image₀.tab4 + tabEntryLen * i) = 0 := by
  have hi := i.isLt
  exact if_neg (by unfold image₀ tabEntryLen; simp only; omega)

theorem frames₀_spec : ∀ f ∈ frames₀, LowFrame f ∧ f ≠ image₀.tab4 ∧ ∀ i < 3, f ≠ directTab image₀ i := by
  unfold LowFrame IsPage
  decide

theorem early₀_early : Early image₀ early₀ frames₀ ∧ ∀ {q t}, node image₀ early₀.mem q = some t → q = [] ∧ t = image₀.tab4 := by
  obtain ⟨htab, hnode⟩ := Tables.root (show LowFrame image₀.tab4 by unfold LowFrame IsPage; decide) early₀_tab4
  refine ⟨⟨htab, early₀_tab4 _, rfl, ?_, by decide, rfl, fun f hf => (frames₀_spec f hf).1.isFrame, fun f hf q hq => ?_, rfl, ?_,
    fun i hi q hq => ?_, fun i hi hm => (frames₀_spec _ hm).2.2 i hi rfl⟩, hnode⟩
  · unfold frames₀
    simp only [Chain]
    decide
  · exact (frames₀_spec f hf).2.1 (hnode hq).2
  · unfold LowFrame IsPage
    decide
  · revert i
    have : ∀ i < 3, directTab image₀ i ≠ image₀.tab4 := by decide
    exact fun i hi hq => this i hi (hnode hq).2

/-- The machine after `_init_direct_access`: nothing is mapped, and only the tables of the window are there. -/
theorem exists_start : ∃ s, initDirectAccess image₀ early₀ = .ok () s ∧ Start image₀ s ∧ Inv image₀ s frames₀ ∧
    (∀ va, lookup s.mem image₀.tab4 va = none) ∧ NoEmpty image₀ s.mem := by
  obtain ⟨he, hnode⟩ := early₀_early
  have hnone : ∀ va, lookup early₀.mem image₀.tab4 va = none := by
    intro va
    refine Option.eq_none_iff_forall_ne_some.2 fun l hl => ?_
    obtain ⟨d, -, t, ht, hdec⟩ := Radix.walk_eq_some.1 hl
    unfold entries at hdec
    rw [(hnode ht).2, early₀_tab4, decode_zero] at hdec
    cases hdec
  obtain ⟨s', hrun', hstart⟩ := he.start fun va l hl => by rw [hnone va] at hl; cases hl
  obtain ⟨m, hrun, hinv, hl⟩ := initDirectAccess_run he
  obtain rfl : { early₀ with mem := m } = s' := by
    rw [hrun] at hrun'
    cases hrun'
    rfl
  refine ⟨_, hrun, hstart, hinv, fun va => (hl.lookup va).trans (hnone va), fun q t ht hs => ?_⟩
  refine absurd ?_ hs
  rcases hl.new ht with ht' | ⟨i, hi, rfl⟩
  · rw [(hnode ht').1]
    exact List.nil_suffix
  · rw [hl.tables.inj ht (hl.path i hi)]
    exact Radix.path_suffix _ (by omega)

/-! ## Translations -/

/-- `mm_page_map` maps the page and nothing else, or nothing at all. It returns unless the list holds a frame
above `VA_48_LOW_END`. -/
theorem map_installs_one_translation (h : Reach im s) (hal : va % 4096 = 0) (hva : ¬ SamePage va directVadd)
    (hnone : lookup s.mem im.tab4 va = none) {pa : Nat} (hpa : pa % 4096 = 0) (hle : pa ≤ va48LowEnd) :
    (∀ s', mmPageMap im va pa s = .ok true s' → lookup s'.mem im.tab4 va = some ⟨pa, true, false⟩ ∧
      ∀ va', ¬ SamePage va' va → lookup s'.mem im.tab4 va' = lookup s.mem im.tab4 va') ∧
    (∀ s', mmPageMap im va pa s = .ok false s' → ∀ va', lookup s'.mem im.tab4 va' = lookup s.mem im.tab4 va') ∧
    ((∀ f, OnFreeList s f → f ≤ va48LowEnd) → ∃ ok s', mmPageMap im va pa s = .ok ok s') := by
  obtain ⟨F, h⟩ := h.inv
  have hpage : IsPage pa := ⟨hpa, hle⟩
  refine ⟨fun s' hs => ?_, fun s' hs => ?_, fun hlow => ?_⟩
  · obtain ⟨F', N, -, -, -, hok⟩ := mmPageMap_ok h hal hva hnone hpage hs
    exact ⟨(hok rfl).here va rfl, (hok rfl).elsewhere⟩
  · obtain ⟨F', N, -, -, hfail, -⟩ := mmPageMap_ok h hal hva hnone hpage hs
    exact (hfail rfl).2.lookup
  · rcases mmPageMap_run h hal hva hnone hpage with ⟨ok, s', hrun, -⟩ | ⟨-, x, hx, hhigh⟩
    · exact ⟨ok, s', hrun⟩
    · exact absurd ⟨(h.frames x hx).1, hlow x (h.onFreeList.2 hx)⟩ hhigh

theorem map_installs_one_translation_first : ∃ s s', Reach image₀ s ∧ mmPageMap image₀ 0 0x400000 s = .ok true s' ∧
    lookup s'.mem image₀.tab4 0 = some ⟨0x400000, true, false⟩ ∧
    ∀ va, ¬ SamePage va 0 → lookup s'.mem image₀.tab4 va = none := by
  obtain ⟨s, -, hstart, hinv, hnone, -⟩ := exists_start
  have hpage : ∀ f ∈ frames₀, IsPage f := fun f hf => (frames₀_spec f hf).1.1
  have halloc := mmFrameAlloc_cons hinv (hpage _ (List.mem_cons_self ..))
  have hreach : Reach image₀ (popFrame s) := .alloc (.start hstart) halloc
  obtain ⟨s', -, -, hrun, -⟩ := mmPageMap_true hinv.pop.1 rfl (by decide) (hnone 0) (hpage _ (List.mem_cons_self ..))
    (fun f hf => hpage f (List.mem_cons_of_mem _ hf)) (by decide)
  obtain ⟨h1, h2⟩ := (map_installs_one_translation hreach rfl (by decide) (hnone 0) rfl (by decide)).1 s' hrun
  exact ⟨popFrame s, s', hreach, hrun, h1, fun va hva => (h2 va hva).trans (hnone va)⟩

end Cing.Page
