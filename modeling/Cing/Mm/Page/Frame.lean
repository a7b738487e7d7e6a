/-
The invariant of frames and page tables, and what the window, `mm_frame_alloc` and `mm_frame_free` do
under it. Between calls the entry of the window is zero; while it is set, the window shows the words
of one page.
-/
import Cing.Lib.Linked
import Cing.Mm.Page.Tree

namespace Cing.Page

open Linked

/-! ## The invariant -/

/-- The tables form a tree, and the free list holds the frames `F`, none of which is a table. -/
structure Inv (im : Image) (s : PageState) (F : List Nat) : Prop where
  tree : Tree im s.mem
  window : s.mem (directTabEntry im) = 0
  stage : s.isEarlyStage = false
  chain : Chain 0 s.mem s.freeHead F
  nodup : F.Nodup
  count : s.freeCount = F.length
  frames : ∀ f ∈ F, IsFrame f
  notTable : ∀ f ∈ F, ∀ q, node im s.mem q ≠ some f

/-- A frame that is neither free nor a table. -/
structure Unused (im : Image) (s : PageState) (F : List Nat) (f : Nat) : Prop where
  frame : IsFrame f
  notFree : f ∉ F
  notTable : ∀ q, node im s.mem q ≠ some f

section Window

variable {im : Image} {s : PageState} {F : List Nat} {p : Nat}

/-! ## The window -/

/-- The entry of the window is an entry of a table. -/
theorem directTabEntry_eq (im : Image) : directTabEntry im = directTab im 0 + tabEntryLen * key directVadd 3 := rfl

/-- The state in which the window shows the page `p`. -/
def withWindow (im : Image) (s : PageState) (p : Nat) : PageState :=
  { s with mem := Function.update s.mem (directTabEntry im) (p + 3) }

/-- A page that the window shows is read and written at its physical address. -/
theorem translate_window {m : Words} (hd : Direct im m) (hp : IsPage p) (hw : m (directTabEntry im) = p + 3)
    {off : Nat} (hoff : off < 4096) : translate m im.tab4 (directVadd + off) = some (p + off) := by
  have hal : directVadd % 4096 = 0 := rfl
  have hpage : SamePage (directVadd + off) directVadd := by
    unfold SamePage pageSize4K
    rw [show (directVadd + off) / 4096 = directVadd / 4096 by omega]
  have hl : lookup m im.tab4 directVadd = some ⟨p, true, false⟩ := by
    refine Radix.walk_eq_some.2 ⟨3, by omega, _, hd.node.2.2, ?_⟩
    show decode 3 (m (directTabEntry im)) = _
    rw [hw]
    exact decode_value_leaf le_rfl hp
  unfold translate
  rw [lookup_samePage hpage, hl]
  simp only [Option.map_some, Bool.false_eq_true, if_false]
  unfold pageSize4K
  rw [show (directVadd + off) % 4096 = off by omega]

theorem setup_run (hp : IsPage p) (hw : s.mem (directTabEntry im) = 0) :
    mmPageDirectAccessSetup im p s = .ok directVadd (withWindow im s p) := by
  have hal : mmAlignCheck p pageSize4K = true := mmAlignCheck_iff.2 hp.1
  unfold mmPageDirectAccessSetup
  rw [Exec.bind_ok (kernelAssert_pos hal _ s), Exec.bind_ok (Exec.get_run s), Exec.bind_ok (kernelAssert_pos hw _ s),
    Exec.bind_ok (tabEntryInit_run (by omega) hp s)]
  rfl

/-- `_tab_entry_init` of an address between the two halves stops. -/
theorem tabEntryInit_gap (hal : p % 4096 = 0) (hgap : ¬ (p ≤ va48LowEnd ∨ p ≥ va48HighStart)) (s : PageState) :
    ∃ expr, tabEntryInit 1 true true p pageSize4K s = .error (.assertFail expr) s := by
  have hal' : mmAlignCheck p pageSize4K = true := mmAlignCheck_iff.2 hal
  have hcheck : tabEntryCheck 1 pageSize4K s = .ok () s := by
    unfold tabEntryCheck
    rw [if_pos (.inr rfl)]
    exact kernelAssert_pos rfl _ s
  unfold tabEntryInit
  rw [Exec.bind_ok hcheck, Exec.bind_ok (kernelAssert_pos hal' _ s), Exec.bind_error (kernelAssert_neg hgap _ s)]
  exact ⟨_, rfl⟩

/-- The window does not open on a frame that no entry can point to. -/
theorem setup_high (hf : IsFrame p) (hp : ¬ IsPage p) (hw : s.mem (directTabEntry im) = 0) :
    ∃ expr, mmPageDirectAccessSetup im p s = .error (.assertFail expr) s := by
  have hal : mmAlignCheck p pageSize4K = true := mmAlignCheck_iff.2 hf.1
  have hgap : ¬ (p ≤ va48LowEnd ∨ p ≥ va48HighStart) := by
    have h52 := hf.2.2
    unfold va48HighStart
    rintro (h | h)
    · exact hp ⟨hf.1, h⟩
    · omega
  obtain ⟨expr, hinit⟩ := tabEntryInit_gap hf.align hgap s
  unfold mmPageDirectAccessSetup
  rw [Exec.bind_ok (kernelAssert_pos hal _ s), Exec.bind_ok (Exec.get_run s), Exec.bind_ok (kernelAssert_pos hw _ s),
    Exec.bind_error hinit]
  exact ⟨_, rfl⟩

theorem reset_run (hw : tabEntryIsPresent (s.mem (directTabEntry im)) = true) :
    mmPageDirectAccessReset im s = .ok () { s with mem := Function.update s.mem (directTabEntry im) 0 } := by
  unfold mmPageDirectAccessReset
  rw [Exec.bind_ok (Exec.get_run s), Exec.bind_ok (kernelAssert_pos hw _ s)]
  rfl

theorem readVa_run {va pa : Nat} (h : translate s.mem im.tab4 va = some pa) : readVa im va s = .ok (s.mem pa) s := by
  unfold readVa
  rw [Exec.bind_ok (Exec.get_run s), h]
  rfl

theorem writeVa_run {va pa : Nat} (v : Nat) (h : translate s.mem im.tab4 va = some pa) :
    writeVa im va v s = .ok () { s with mem := Function.update s.mem pa v } := by
  unfold writeVa
  rw [Exec.bind_ok (Exec.get_run s), h]
  rfl

theorem mmFrameFree_run {va pa : Nat} (f : Nat) (h : translate s.mem im.tab4 va = some pa) :
    mmFrameFree im va f s =
      .ok () { s with mem := Function.update s.mem pa s.freeHead, freeHead := f, freeCount := s.freeCount + 1 } := by
  unfold mmFrameFree
  rw [Exec.bind_ok (Exec.get_run s), Exec.bind_ok (writeVa_run _ h)]
  rfl

theorem translate_entry {m : Words} (hd : Direct im m) (hp : IsPage p) (hw : m (directTabEntry im) = p + 3)
    (i : Fin 512) : translate m im.tab4 (directVadd + tabEntryLen * i) = some (p + tabEntryLen * i) :=
  translate_window hd hp hw (by have := i.isLt; unfold tabEntryLen; omega)

theorem translate_start {m : Words} (hd : Direct im m) (hp : IsPage p) (hw : m (directTabEntry im) = p + 3) :
    translate m im.tab4 directVadd = some p := by
  simpa only [Nat.add_zero] using translate_window hd hp hw (show 0 < 4096 by omega)

/-- Setting and clearing the window leaves the tree as it is. -/
theorem Tree.window {m : Words} (h : Tree im m) {v : Nat} (hv : EntryOk 3 v) :
    (∀ q, node im (Function.update m (directTabEntry im) v) q = node im m q) ∧
      Tree im (Function.update m (directTabEntry im) v) := by
  obtain ⟨h1, h2, -⟩ := h.set (Function.update m (directTabEntry im) v) (i := key directVadd 3) h.direct.node.2.2
    (by rw [Radix.path_length]; exact decode_last _) (by rw [Radix.path_length]; exact decode_last _)
    (by rw [← directTabEntry_eq, Function.update_self, Radix.path_length]; exact hv)
    fun q t j _ hne => Function.update_of_ne hne _ _
  exact ⟨h1, h2⟩

theorem Direct.withWindow (h : Tree im s.mem) (hp : IsPage p) : Direct im (withWindow im s p).mem :=
  (h.window (.value 3 hp)).2.direct

theorem withWindow_entry (im : Image) (s : PageState) (p : Nat) : (withWindow im s p).mem (directTabEntry im) = p + 3 :=
  Function.update_self ..

theorem withWindow_present (hp : IsPage p) :
    tabEntryIsPresent ((withWindow im s p).mem (directTabEntry im)) = true := by
  rw [withWindow_entry]; exact (present_value hp).1

/-- Clearing the window again gives the state before. -/
theorem withWindow_clear (hw : s.mem (directTabEntry im) = 0) :
    Function.update (withWindow im s p).mem (directTabEntry im) 0 = s.mem := by
  unfold withWindow
  rw [Function.update_idem, ← hw, Function.update_eq_self]

end Window

/-! ## Frames -/

section Frame

variable {im : Image} {s : PageState} {F : List Nat} {f : Nat}

/-- A word of a frame that is no table is no word of a table. -/
theorem Tables.frame_ne {m : Words} (h : Tables im m) (hf : f % 4096 = 0) (hn : ∀ q, node im m q ≠ some f)
    {q : List (Fin 512)} {t : Nat} (ht : node im m q = some t) (i j : Fin 512) :
    t + tabEntryLen * i ≠ f + tabEntryLen * j := by
  intro e
  obtain ⟨rfl, -⟩ := word_inj (h.align ht) hf e
  exact hn q ht

theorem Tables.frame_ne_start {m : Words} (h : Tables im m) (hf : f % 4096 = 0) (hn : ∀ q, node im m q ≠ some f)
    {q : List (Fin 512)} {t : Nat} (ht : node im m q = some t) (i : Fin 512) : t + tabEntryLen * i ≠ f := by
  have := h.frame_ne hf hn ht i 0
  simpa using this

theorem Inv.window_ne (h : Inv im s F) (hf : f % 4096 = 0) (hn : ∀ q, node im s.mem q ≠ some f) (j : Fin 512) :
    f + tabEntryLen * j ≠ directTabEntry im := (h.tree.frame_ne hf hn h.tree.direct.node.2.2 _ j).symm

theorem Inv.window_ne_start (h : Inv im s F) (hf : f % 4096 = 0) (hn : ∀ q, node im s.mem q ≠ some f) :
    f ≠ directTabEntry im := (h.tree.frame_ne_start hf hn h.tree.direct.node.2.2 _).symm

/-- The invariant reads the words of the tables and the first words of the free frames. -/
theorem Inv.congr (h : Inv im s F) (m : Words)
    (ht : ∀ q t, node im s.mem q = some t → ∀ i : Fin 512, m (t + tabEntryLen * i) = s.mem (t + tabEntryLen * i))
    (hF : ∀ f ∈ F, m f = s.mem f) : Inv im { s with mem := m } F ∧ (∀ q, node im m q = node im s.mem q) ∧
      ∀ va, lookup m im.tab4 va = lookup s.mem im.tab4 va := by
  obtain ⟨h1, h2, h3⟩ := h.tree.congr m ht
  refine ⟨⟨h2, ?_, h.stage, h.chain.congr hF, h.nodup, h.count, h.frames, fun f hf q => by rw [h1]; exact h.notTable f hf q⟩,
    h1, h3⟩
  show m (directTabEntry im) = 0
  rw [directTabEntry_eq, ht _ _ h.tree.direct.node.2.2, ← directTabEntry_eq]
  exact h.window

/-- The state after the first frame was taken off the list. -/
def popFrame (s : PageState) : PageState := { s with freeHead := s.mem s.freeHead, freeCount := s.freeCount - 1 }

/-- The state after a frame was put on the list. -/
def pushFrame (s : PageState) (f : Nat) : PageState :=
  { s with mem := Function.update s.mem f s.freeHead, freeHead := f, freeCount := s.freeCount + 1 }

theorem Inv.pop (h : Inv im s (f :: F)) : Inv im (popFrame s) F ∧ Unused im (popFrame s) F f := by
  have hnd := List.nodup_cons.1 h.nodup
  have hmem : f ∈ f :: F := List.mem_cons_self ..
  refine ⟨⟨h.tree, h.window, h.stage, ?_, hnd.2, ?_, fun x hx => h.frames x (List.mem_cons_of_mem _ hx),
    fun x hx => h.notTable x (List.mem_cons_of_mem _ hx)⟩, h.frames f hmem, hnd.1, h.notTable f hmem⟩
  · show Chain 0 s.mem (s.mem s.freeHead) F
    rw [h.chain.1]
    exact h.chain.2.2
  · show s.freeCount - 1 = F.length
    rw [h.count, List.length_cons]
    rfl

theorem Inv.push (h : Inv im s F) (hu : Unused im s F f) : Inv im (pushFrame s f) (f :: F) ∧
    (∀ q, node im (pushFrame s f).mem q = node im s.mem q) ∧
      ∀ va, lookup (pushFrame s f).mem im.tab4 va = lookup s.mem im.tab4 va := by
  have hal := hu.frame.align
  have hF : ∀ x ∈ F, Function.update s.mem f s.freeHead x = s.mem x := fun x hx =>
    Function.update_of_ne (fun e : x = f => hu.notFree (e ▸ hx)) _ _
  obtain ⟨h1, h2, h3⟩ := h.congr (Function.update s.mem f s.freeHead)
    (fun q t ht i => Function.update_of_ne (h.tree.frame_ne_start hal hu.notTable ht i) _ _) hF
  refine ⟨⟨h1.tree, h1.window, h.stage, ⟨rfl, hu.frame.2.1.ne', ?_⟩, List.nodup_cons.2 ⟨hu.notFree, h.nodup⟩, ?_, ?_, ?_⟩,
    h2, h3⟩
  · show Chain 0 (Function.update s.mem f s.freeHead) (Function.update s.mem f s.freeHead f) F
    rw [Function.update_self]
    exact h1.chain
  · show s.freeCount + 1 = _
    rw [h.count, List.length_cons]
  · rintro x (_ | ⟨_, hx⟩)
    · exact hu.frame
    · exact h.frames x hx
  · rintro x (_ | ⟨_, hx⟩) q
    · exact fun e => hu.notTable q ((h2 q).symm.trans e)
    · exact h1.notTable x hx q

/-- Freeing a frame leaves the others as they are. -/
theorem Inv.unused_push {x : Nat} (h : Inv im s F) (hu : Unused im s F f) (hx : Unused im s F x) (hne : x ≠ f) :
    Unused im (pushFrame s f) (f :: F) x := by
  refine ⟨hx.frame, fun hm => ?_, fun q e => hx.notTable q (((h.push hu).2.1 q).symm.trans e)⟩
  rcases List.mem_cons.1 hm with e | hm
  · exact hne e
  · exact hx.notFree hm

/-- `mm_frame_alloc` fails only on an empty list. -/
theorem mmFrameAlloc_nil (h : Inv im s []) : mmFrameAlloc im s = .ok none s := by
  unfold mmFrameAlloc
  rw [Exec.bind_ok (Exec.get_run s), Exec.bind_ok (kernelAssert_pos h.stage _ s), if_pos (chain_nil.1 h.chain)]
  rfl

theorem mmFrameAlloc_cons (h : Inv im s (f :: F)) (hp : IsPage f) : mmFrameAlloc im s = .ok (some f) (popFrame s) := by
  have hmem : f ∈ f :: F := List.mem_cons_self ..
  have hf := h.frames f hmem
  have hal : mmAlignCheck f pageSize4K = true := mmAlignCheck_iff.2 hf.1
  have hne := h.window_ne_start hf.align (h.notTable f hmem)
  have hhead : s.freeHead = f := h.chain.1
  have hread := readVa_run (s := withWindow im s f)
    (translate_start (Direct.withWindow h.tree hp) hp (withWindow_entry im s f))
  have hnext : (withWindow im s f).mem f = s.mem f := Function.update_of_ne hne _ _
  unfold mmFrameAlloc
  rw [Exec.bind_ok (Exec.get_run s), Exec.bind_ok (kernelAssert_pos h.stage _ s), if_neg (hhead ▸ hf.2.1.ne'), hhead,
    Exec.bind_ok (kernelAssert_pos hal _ s), Exec.bind_ok (setup_run hp h.window), Exec.bind_ok hread,
    Exec.bind_ok (Exec.modify_run _ _), Exec.bind_ok (reset_run ?_), hnext]
  · show EStateM.Result.ok _ { s with mem := _, freeHead := _, freeCount := _ } = _
    rw [withWindow_clear h.window]
    unfold popFrame
    rw [hhead]
    rfl
  · exact withWindow_present hp

/-- `mm_frame_alloc` stops at a frame that no entry can point to. -/
theorem mmFrameAlloc_high (h : Inv im s (f :: F)) (hp : ¬ IsPage f) :
    ∃ expr, mmFrameAlloc im s = .error (.assertFail expr) s := by
  have hf := h.frames f (List.mem_cons_self ..)
  have hal : mmAlignCheck f pageSize4K = true := mmAlignCheck_iff.2 hf.1
  have hhead : s.freeHead = f := h.chain.1
  obtain ⟨expr, he⟩ := setup_high hf hp h.window
  refine ⟨expr, ?_⟩
  unfold mmFrameAlloc
  rw [Exec.bind_ok (Exec.get_run s), Exec.bind_ok (kernelAssert_pos h.stage _ s), if_neg (hhead ▸ hf.2.1.ne'), hhead,
    Exec.bind_ok (kernelAssert_pos hal _ s), Exec.bind_error he]

theorem mmFrameAlloc_page (h : Inv im s (f :: F)) {r : Option Nat} {s' : PageState} (hrun : mmFrameAlloc im s = .ok r s') :
    IsPage f := by
  by_contra hp
  obtain ⟨e, he⟩ := mmFrameAlloc_high h hp
  rw [hrun] at he
  cases he

/-- A frame that `mm_frame_alloc` returned was the first of the list. -/
theorem mmFrameAlloc_some (h : Inv im s F) {s' : PageState} (hrun : mmFrameAlloc im s = .ok (some f) s') :
    ∃ F', F = f :: F' ∧ IsPage f ∧ s' = popFrame s := by
  cases F with
  | nil =>
    rw [mmFrameAlloc_nil h] at hrun
    cases hrun
  | cons g F =>
    have hp := mmFrameAlloc_page h hrun
    rw [mmFrameAlloc_cons h hp] at hrun
    cases hrun
    exact ⟨F, rfl, hp, rfl⟩

theorem mmFrameAlloc_none (h : Inv im s F) {s' : PageState} (hrun : mmFrameAlloc im s = .ok none s') : F = [] ∧ s' = s := by
  cases F with
  | nil =>
    rw [mmFrameAlloc_nil h] at hrun
    cases hrun
    exact ⟨rfl, rfl⟩
  | cons g F =>
    rw [mmFrameAlloc_cons h (mmFrameAlloc_page h hrun)] at hrun
    cases hrun

/-- Putting the frame that the window shows on the list, and closing the window. -/
theorem windowFree_run (hd : Direct im (withWindow im s f).mem) (hp : IsPage f) (hne : f ≠ directTabEntry im)
    (hw : s.mem (directTabEntry im) = 0) : ∃ s', mmFrameFree im directVadd f (withWindow im s f) = .ok () s' ∧
      mmPageDirectAccessReset im s' = .ok () (pushFrame s f) := by
  refine ⟨_, mmFrameFree_run f (translate_start hd hp (withWindow_entry im s f)), ?_⟩
  rw [reset_run]
  · show EStateM.Result.ok _ { s with mem := _, freeHead := _, freeCount := _ } = _
    rw [Function.update_comm hne, withWindow_clear hw]
    rfl
  · show tabEntryIsPresent (Function.update (withWindow im s f).mem f _ _) = true
    rw [Function.update_of_ne hne.symm]
    exact withWindow_present hp

/-- A frame that is given back through the window. -/
theorem returnFrame_run (h : Inv im s F) (hu : Unused im s F f) (hpage : IsPage f) :
    returnFrame im f s = .ok () (pushFrame s f) := by
  obtain ⟨s', hfree, hreset⟩ := windowFree_run (Direct.withWindow h.tree hpage) hpage
    (h.window_ne_start hpage.bounds.1 hu.notTable) h.window
  unfold returnFrame
  rw [Exec.bind_ok (setup_run hpage h.window), Exec.bind_ok hfree, hreset]

theorem returnFrame_page (h : Inv im s F) (hf : IsFrame f) {s' : PageState} (hrun : returnFrame im f s = .ok () s') :
    IsPage f := by
  by_contra hp
  obtain ⟨e, he⟩ := setup_high hf hp h.window
  unfold returnFrame at hrun
  rw [Exec.bind_error he] at hrun
  cases hrun

end Frame

end Cing.Page
