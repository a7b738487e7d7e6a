/-
How the window is used. In every sequence of calls that keep to their contract, the window is clear
whenever it is set up and set whenever it is reset, each access to a table goes through it to that very
table, and each call leaves it clear, also one that runs out of frames. Without the contract this fails:
nothing stops a caller from mapping the table of the window like any other page.
-/
import Cing.Mm.Page.Runs
import Cing.Mm.Page.Window

namespace Cing.Page

open Trace (Clean)

variable {im : Image} {s s' : PageState} {F : List Nat} {f t va pa : Nat} {p : List (Fin 512)} {α : Type}

/-! ## Single steps -/

section Steps

/-- The addresses in the window. -/
theorem window_address (off : Nat) (hoff : off < 4096) :
    SamePage (directVadd + off) directVadd ∧ (directVadd + off) % pageSize4K = off := by
  have hal : directVadd % 4096 = 0 := rfl
  unfold SamePage pageSize4K
  rw [show (directVadd + off) / 4096 = directVadd / 4096 by omega]
  exact ⟨rfl, by omega⟩

theorem table_ok {m : Words} {i : Fin 512}
    (ht : translate m im.tab4 (directVadd + tabEntryLen * i) = some (t + tabEntryLen * i)) :
    Event.Ok (.table (directVadd + tabEntryLen * i) (translate m im.tab4 (directVadd + tabEntryLen * i)) t) := by
  obtain ⟨h1, h2⟩ := window_address (tabEntryLen * i) (by have := i.isLt; unfold tabEntryLen; omega)
  refine ⟨h1, ?_⟩
  rw [h2]
  exact ht

theorem setup_clean (hw : s.mem (directTabEntry im) = 0) (padd : Nat) :
    Clean Event.Ok (Observed.mmPageDirectAccessSetup im padd) s := Clean.note hw (.quiet _ s)

theorem reset_clean (hw : tabEntryIsPresent (s.mem (directTabEntry im)) = true) :
    Clean Event.Ok (Observed.mmPageDirectAccessReset im) s := Clean.note hw (.quiet _ s)

theorem readTab_clean {i : Fin 512} (ht : translate s.mem im.tab4 (directVadd + tabEntryLen * i) = some (t + tabEntryLen * i)) :
    Clean Event.Ok (Observed.readTab im t (directVadd + tabEntryLen * i)) s := Clean.note (table_ok ht) (.quiet _ s)

theorem writeTab_clean {i : Fin 512} (ht : translate s.mem im.tab4 (directVadd + tabEntryLen * i) = some (t + tabEntryLen * i))
    (v : Nat) : Clean Event.Ok (Observed.writeTab im t (directVadd + tabEntryLen * i) v) s := Clean.note (table_ok ht) (.quiet _ s)

/-- A reset that returns found the window set. -/
theorem reset_clean_ok (hrun : mmPageDirectAccessReset im s = .ok () s') :
    Clean Event.Ok (Observed.mmPageDirectAccessReset im) s := by
  unfold mmPageDirectAccessReset at hrun
  rw [Exec.bind_ok (Exec.get_run s)] at hrun
  obtain ⟨_, _, hassert, -⟩ := Exec.bind_eq_ok.1 hrun
  exact reset_clean (kernelAssert_ok hassert).1

theorem mmFrameFree_clean (ht : translate s.mem im.tab4 va = some f) : Clean Event.Ok (Observed.mmFrameFree im va f) s := by
  have hok : Event.Ok (.frame va (translate s.mem im.tab4 va) f) := ht
  exact Clean.note hok (.quiet _ s)

/-- Setting the window up. -/
theorem setup_step {g : Nat → TraceM α} (hw : s.mem (directTabEntry im) = 0) (hp : IsPage f)
    (hg : Clean Event.Ok (g directVadd) (withWindow im s f)) :
    Clean Event.Ok (Observed.mmPageDirectAccessSetup im f >>= g) s :=
  (setup_clean hw f).step (Observed.setup_shows f) (setup_run hp hw) hg

/-- Closing the window again. -/
theorem close_step {g : Unit → TraceM α} (hw : s.mem (directTabEntry im) = 0) (hp : IsPage t) (hg : Clean Event.Ok (g ()) s) :
    Clean Event.Ok (Observed.mmPageDirectAccessReset im >>= g) (withWindow im s t) :=
  (reset_clean (withWindow_present hp)).step Observed.reset_shows (closeWindow_run hw hp) hg

theorem Inv.translate_window (h : Inv im s F) (hp : IsPage t) (i : Fin 512) :
    translate (withWindow im s t).mem im.tab4 (directVadd + tabEntryLen * i) = some (t + tabEntryLen * i) :=
  translate_entry (Direct.withWindow h.tree hp) hp (withWindow_entry im s t) i

/-- Reading an entry of the table in the window. -/
theorem read_step {g : Nat → TraceM α} {i : Fin 512} (h : Inv im s F) (hp : node im s.mem p = some t)
    (hne : t + tabEntryLen * i ≠ directTabEntry im) (hg : Clean Event.Ok (g (s.mem (t + tabEntryLen * i))) (withWindow im s t)) :
    Clean Event.Ok (Observed.readTab im t (directVadd + tabEntryLen * i) >>= g) (withWindow im s t) :=
  (readTab_clean (h.translate_window (h.tree.frame hp).1 i)).step (Observed.readTab_shows t _) (readEntry_run h hp hne) hg

end Steps

/-! ## mm_frame.c -/

theorem mmFrameAlloc_clean (h : Inv im s F) : Clean Event.Ok (Observed.mmFrameAlloc im) s := by
  refine .quiet_step (Exec.get_run s) (.quiet_step (kernelAssert_pos h.stage _ s) ?_)
  cases F with
  | nil =>
    rw [if_pos (Linked.chain_nil.1 h.chain)]
    exact .pure _ s
  | cons f F =>
    have hf := h.frames f (List.mem_cons_self ..)
    have hhead : s.freeHead = f := h.chain.1
    have hal : mmAlignCheck f pageSize4K = true := mmAlignCheck_iff.2 hf.1
    rw [hhead, if_neg hf.2.1.ne']
    refine .quiet_step (kernelAssert_pos hal _ s) ?_
    by_cases hp : IsPage f
    · have htr := translate_start (Direct.withWindow h.tree hp) hp (withWindow_entry im s f)
      have hpres : tabEntryIsPresent ((withWindow im s f).mem (directTabEntry im)) = true := withWindow_present hp
      refine setup_step h.window hp (Clean.note htr (.quiet_step (readVa_run htr) (.quiet_step (Exec.modify_run _ _) ?_)))
      refine (reset_clean ?_).bind Observed.reset_shows fun _ _ _ => .pure _ _
      exact hpres
    · obtain ⟨e, he⟩ := setup_high hf hp h.window
      exact (setup_clean h.window f).stop (Observed.setup_shows f) he

theorem returnFrame_clean (h : Inv im s F) (hu : Unused im s F f) : Clean Event.Ok (Observed.returnFrame im f) s := by
  by_cases hp : IsPage f
  · have hd := Direct.withWindow h.tree hp
    have hclean := mmFrameFree_clean (translate_start hd hp (withWindow_entry im s f))
    obtain ⟨s₁, hfree, hreset⟩ := windowFree_run hd hp (h.window_ne_start hp.bounds.1 hu.notTable) h.window
    exact setup_step h.window hp (hclean.step (Observed.mmFrameFree_shows _ f) hfree (reset_clean_ok hreset))
  · obtain ⟨e, he⟩ := setup_high hu.frame hp h.window
    exact (setup_clean h.window f).stop (Observed.setup_shows f) he

/-! ## mm_page_map -/

theorem tabZeroLoop_clean (hp : IsPage f) (hkeep : ∀ m : Words, (∀ x, (∀ j < 512, x ≠ f + tabEntryLen * j) → m x = s.mem x) →
      Direct im m ∧ m (directTabEntry im) = f + 3) : ∀ {n : Nat}, n ≤ 512 →
        Clean Event.Ok (Observed.tabZeroLoop im f directVadd n) s
  | 0, _ => .pure () s
  | n + 1, hn => by
    obtain ⟨m, hrun, -, hsame⟩ := tabZeroLoop_run hp hkeep (Nat.le_of_succ_le hn)
    obtain ⟨hd, hw⟩ := hkeep m fun x hx => hsame x fun j hj => hx j (by omega)
    refine (tabZeroLoop_clean hp hkeep (Nat.le_of_succ_le hn)).step (Observed.tabZeroLoop_shows f _ n) hrun ?_
    exact writeTab_clean (i := ⟨n, hn⟩) (translate_entry hd hp hw ⟨n, hn⟩) 0

theorem spareFrame_clean (h : Inv im s F) (f : Nat) : Clean Event.Ok (Observed.spareFrame im f) s := by
  unfold Observed.spareFrame
  split
  · cases F with
    | nil => exact (mmFrameAlloc_clean h).step Observed.mmFrameAlloc_shows (mmFrameAlloc_nil h) (.pure _ s)
    | cons f F =>
      by_cases hp : IsPage f
      · obtain ⟨hpop, hu⟩ := h.pop
        obtain ⟨m, hrun, hw, -⟩ := tabZero_run hpop hu hp
        refine (mmFrameAlloc_clean h).step Observed.mmFrameAlloc_shows (mmFrameAlloc_cons h hp) (setup_step hpop.window hp ?_)
        refine (tabZeroLoop_clean hp (hpop.window_keeps hu hp) le_rfl).step (Observed.tabZeroLoop_shows f _ _) hrun ?_
        refine (reset_clean ?_).bind Observed.reset_shows fun _ _ _ => .pure _ _
        show tabEntryIsPresent (m (directTabEntry im)) = true
        rw [hw]
        exact (present_value hp).1
      · obtain ⟨e, he⟩ := mmFrameAlloc_high h hp
        exact (mmFrameAlloc_clean h).stop Observed.mmFrameAlloc_shows he
  · exact .pure _ s

/-- The entry of a round, found or linked. -/
theorem linkTable_clean {level : Nat} {i : Fin 512} (hlevel : 1 ≤ level ∧ level ≤ 4) (h : Inv im s F) (hsp : Spare im s F f)
    (hp : node im s.mem p = some t) (hlen : p.length < 3)
    (hentry : s.mem (t + tabEntryLen * i) = 0 ∨ tabEntryIsPresent (s.mem (t + tabEntryLen * i)) = true) :
    Clean Event.Ok (Observed.linkTable im level t (directVadd + tabEntryLen * i) f) (withWindow im s t) := by
  refine read_step h hp (h.short_ne_window hp hlen i) ?_
  split
  · exact .pure _ _
  · rename_i hpres
    refine .quiet_step (kernelAssert_pos (hentry.resolve_right hpres) _ _) (.quiet_step (kernelAssert_pos hsp.frame.2.1.ne' _ _) ?_)
    refine .quiet_step (tabEntryInit_run hlevel hsp.page _) ?_
    refine (writeTab_clean (h.translate_window (h.tree.frame hp).1 i) _).bind (Observed.writeTab_shows t _ _) fun _ _ _ => ?_
    exact .pure _ _

/-- The loop of `mm_page_map`, also if it breaks off. -/
theorem mapLoop_clean (va : Nat) : ∀ {n d : Nat} {s : PageState} {F : List Nat} {t f : Nat}, n + d = 3 → Inv im s F →
    node im s.mem (Radix.path (key va) d) = some t → lookup s.mem im.tab4 va = none → (f = 0 ∨ Spare im s F f) →
    Clean Event.Ok (Observed.mapLoop im va (n + 1) t f) s := by
  intro n
  induction n with
  | zero => intro d s F t f _ _ _ _ _; exact .pure _ s
  | succ n ih =>
    intro d s F t f hd h hp hnone hf
    have hkey : tabIndex va (n + 2) = key va d := by rw [key, show 4 - d = n + 2 by omega]
    have hlen : (Radix.path (key va) d).length < 3 := by rw [Radix.path_length]; omega
    have hlevel : 1 ≤ n + 2 ∧ n + 2 ≤ 4 := by omega
    rw [Observed.mapLoop]
    refine (spareFrame_clean h f).bind (Observed.spareFrame_shows f) fun r s₁ hr => ?_
    cases r with
    | none => exact .pure _ s₁
    | some f' =>
      obtain ⟨F₁, h₁, hsp, hg⟩ := spareFrame_ok va h hf hr
      have hp₁ := hg.old hp
      have hnone₁ := (hg.lookup va).trans hnone
      have hpage := (h₁.tree.frame hp₁).1
      have hne := h₁.short_ne_window hp₁ hlen (key va d)
      refine setup_step h₁.window hpage (.quiet_step (vaddTabIndex_run hlevel va _) ?_)
      rw [hkey]
      rcases h₁.tree.table_or_zero hnone₁ (by omega) hp₁ with hz | ⟨c, hc⟩
      · obtain ⟨h₂, hn1, hn2, hlook⟩ := h₁.link hsp hp₁ hlen hz
        have hval : (withWord s₁ (t + tabEntryLen * key va d) (f' + 3)).mem (t + tabEntryLen * key va d) = f' + 3 :=
          Function.update_self ..
        refine (linkTable_clean hlevel h₁ hsp hp₁ hlen (.inl hz)).step (Observed.linkTable_shows _ t _ f')
          (linkTable_new hlevel h₁ hsp hp₁ hlen hz) ?_
        refine read_step h₂ ((hn2 _ List.ne_cons_self).trans hp₁) hne (close_step h₂.window hpage ?_)
        rw [hval, tabEntryGetPadd_value hsp.page]
        exact ih (d := d + 1) (by omega) h₂ hn1 ((hlook va).trans hnone₁) (.inl rfl)
      · obtain ⟨hlink, hpres, hpadd⟩ := linkTable_found (n + 2) h₁ hp₁ hlen hc f'
        refine (linkTable_clean hlevel h₁ hsp hp₁ hlen (.inr hpres)).step (Observed.linkTable_shows _ t _ f') hlink ?_
        refine read_step h₁ hp₁ hne (close_step h₁.window hpage ?_)
        rw [hpadd]
        exact ih (by omega) h₁ hc hnone₁ (.inr hsp)

theorem mapLeaf_clean (h : Inv im s F) (hp : node im s.mem (Radix.path (key va) 3) = some t)
    (hz : s.mem (t + tabEntryLen * key va 3) = 0) (hva : ¬ SamePage va directVadd) (hpa : IsPage pa) :
    Clean Event.Ok (Observed.mapLeaf im va pa t) s := by
  have hpage := (h.tree.frame hp).1
  have hne := h.word_ne_window hp fun e => hva (samePage_path.2 e)
  have hkey : tabIndex va 1 = key va 3 := rfl
  refine setup_step h.window hpage (.quiet_step (vaddTabIndex_run (by omega) va _) ?_)
  rw [hkey]
  refine read_step h hp hne (.quiet_step (kernelAssert_pos hz _ _) (.quiet_step (tabEntryInit_run (by omega) hpa _) ?_))
  refine (writeTab_clean (h.translate_window hpage _) _).step (Observed.writeTab_shows t _ _) (writeEntry_run h hp _ hne) ?_
  exact reset_clean (withWindow_present hpage)

theorem mmPageMap_clean (h : Inv im s F) (hal : va % 4096 = 0) (hva : ¬ SamePage va directVadd)
    (hnone : lookup s.mem im.tab4 va = none) (hpa : IsPage pa) : Clean Event.Ok (Observed.mmPageMap im va pa) s := by
  have hal1 : mmAlignCheck va pageSize4K = true := mmAlignCheck_iff.2 hal
  have hal2 : mmAlignCheck pa pageSize4K = true := mmAlignCheck_iff.2 hpa.1
  have hloop := mapLoop_clean va (n := 3) (d := 0) rfl h rfl hnone (.inl rfl)
  refine .quiet_step (kernelAssert_pos hal1 _ s) (.quiet_step (kernelAssert_pos hal2 _ s) ?_)
  rcases mapLoop_run va (n := 3) (d := 0) rfl h rfl hnone (.inl rfl) with
    ⟨ok, t, f, s₁, F₁, N, hrun, h₁, hf, -, hg, hok, hfail⟩ | ⟨⟨e, s₁, hrun⟩, -⟩
  case inr => exact hloop.stop (Observed.mapLoop_shows va 4 _ 0) hrun
  refine hloop.step (Observed.mapLoop_shows va 4 _ 0) hrun ?_
  refine .quiet_step (directAccessIsReset_run h₁.window) (.quiet_step (kernelAssert_pos rfl _ _) ?_)
  cases ok with
  | false =>
    obtain ⟨rfl, -⟩ := hfail rfl
    exact .pure _ s₁
  | true =>
    have ht := hok rfl
    have hz := h₁.leaf_zero ((hg.lookup va).trans hnone) ht
    obtain ⟨h₂, hnode, -, -⟩ := h₁.leaf ht hz hva hpa
    rw [if_pos rfl]
    refine (mapLeaf_clean h₁ ht hz hva hpa).step (Observed.mapLeaf_shows va pa t) (mapLeaf_run h₁ ht hz hva hpa) ?_
    rcases hf with rfl | hsp
    · exact .pure _ _
    · have hu : Unused im _ F₁ f := ⟨hsp.frame, hsp.notFree, fun q e => hsp.notTable q ((hnode q).symm.trans e)⟩
      rw [if_pos hsp.frame.2.1.ne']
      exact (returnFrame_clean h₂ hu).bind (Observed.returnFrame_shows f) fun _ _ _ => .pure _ _

/-! ## _unmap -/

theorem unmapDown_clean (h : Inv im s F) (hva : ¬ SamePage va directVadd) {D : Nat} {l : Leaf}
    (hp : node im s.mem (Radix.path (key va) D) = some t)
    (hl : decode D (s.mem (t + tabEntryLen * key va D)) = .leaf l) : ∀ {n d : Nat} {tabPa : Nat → Nat}, n + d = 4 → d ≤ D →
    node im s.mem (Radix.path (key va) d) = some (tabPa n) → Clean Event.Ok (Observed.unmapDown im va n tabPa) s := by
  intro n
  induction n with
  | zero => intro d tabPa _ _ _; exact .pure _ s
  | succ n ih =>
    intro d tabPa hn hd htab
    have hkey : tabIndex va (n + 1) = key va d := by rw [key, show 4 - d = n + 1 by omega]
    have hpage := (h.tree.frame htab).1
    have hok := h.tree.entry htab (key va d)
    rw [Radix.path_length] at hok
    refine .quiet_step (vaddTabIndex_run (by omega) va s) ?_
    rw [hkey]
    refine setup_step h.window hpage (read_step h htab (h.way_ne_window hva (by omega) htab) ?_)
    rcases Nat.lt_or_eq_of_le hd with hlt | rfl
    · obtain ⟨c, hc⟩ := Radix.node_suffix (Radix.path_suffix (key va) (Nat.succ_le_of_lt hlt)) hp
      obtain ⟨-, hpres, hhuge, hpadd⟩ := h.tree.entry_of_table htab hc
      rw [hhuge, hpadd]
      refine .quiet_step (kernelAssert_pos hpres _ _) (.quiet_step (Exec.pure_run () _) (close_step h.window hpage ?_))
      refine ih (by omega) hlt (hc.trans ?_)
      rw [Function.update_self]
    · obtain rfl : tabPa (n + 1) = t := Option.some.inj (htab.symm.trans hp)
      obtain ⟨hpres, hhuge, hpadd, -, -, h2m, h4k⟩ := decode_eq_leaf hok hl
      rw [hhuge, hpadd]
      refine .quiet_step (kernelAssert_pos hpres _ _) ?_
      cases hl' : l.huge with
      | true =>
        have hn2 : n + 1 = 2 := by have := (h2m hl').1; omega
        exact .quiet_step (kernelAssert_pos hn2 _ _) (close_step h.window hpage (.pure _ s))
      | false =>
        have hd3 := h4k hl'
        obtain rfl : n = 0 := by omega
        exact .quiet_step (Exec.pure_run () _) (close_step h.window hpage (.pure _ s))

theorem tabIsZeroLoop_clean
    (htr : ∀ j : Fin 512, translate s.mem im.tab4 (directVadd + tabEntryLen * j) = some (t + tabEntryLen * j)) :
    ∀ {n i : Nat}, i + n = 512 → Clean Event.Ok (Observed.tabIsZeroLoop im t directVadd n i) s
  | 0, _, _ => .pure true s
  | n + 1, i, h => by
    have hi : i < 512 := by omega
    refine (readTab_clean (i := ⟨i, hi⟩) (htr ⟨i, hi⟩)).step (Observed.readTab_shows t _) (readVa_run (htr ⟨i, hi⟩)) ?_
    split
    · exact tabIsZeroLoop_clean htr (by omega)
    · exact .pure false s

theorem tabIsZero_clean (h : Inv im s F) (hp : node im s.mem p = some t) :
    Clean Event.Ok (Observed.tabIsZero im t directVadd) (withWindow im s t) :=
  .quiet_step (kernelAssert_pos (show mmAlignCheck directVadd pageSize4K = true from rfl) _ _)
    (tabIsZeroLoop_clean (h.translate_window (h.tree.frame hp).1) (by unfold tabEntryCount; omega))

/-- A round of the last loop of `_unmap`. -/
theorem unmapUp_clean_round {tabPa : Nat → Nat} {n d : Nat} (hd : d ≤ 3)
    (h : Inv im (withWord s (tabPa (4 - d) + tabEntryLen * key va d) 0) F)
    (hp : node im (withWord s (tabPa (4 - d) + tabEntryLen * key va d) 0).mem p = some (tabPa (4 - d)))
    (hne : tabPa (4 - d) + tabEntryLen * key va d ≠ directTabEntry im)
    (hnext : tabPa (4 - d) ≠ directTab im 0 →
      (∀ j : Fin 512, (withWord s (tabPa (4 - d) + tabEntryLen * key va d) 0).mem (tabPa (4 - d) + tabEntryLen * j) = 0) →
      Clean Event.Ok (Observed.unmapUp im va tabPa n (4 - d + 1))
        (pushFrame (withWord s (tabPa (4 - d) + tabEntryLen * key va d) 0) (tabPa (4 - d)))) :
    Clean Event.Ok (Observed.unmapUp im va tabPa (n + 1) (4 - d)) s := by
  have hkey : tabIndex va (4 - d) = key va d := rfl
  obtain ⟨hw, hds, hwrite⟩ := h.before_clear hp hne
  rw [Observed.unmapUp]
  refine .quiet_step (vaddTabIndex_run (by omega) va s) ?_
  rw [hkey]
  generalize ht : tabPa (4 - d) = t at *
  generalize hz : withWord s (t + tabEntryLen * key va d) 0 = z at *
  have hpage := (h.tree.frame hp).1
  obtain ⟨b, hb, hiff⟩ := tabIsZero_run h hp
  refine setup_step hw hpage ?_
  refine (writeTab_clean (translate_entry hds hpage (withWindow_entry im s t) _) 0).step (Observed.writeTab_shows t _ 0) hwrite ?_
  refine (tabIsZero_clean h hp).step (Observed.tabIsZero_shows t _) hb ?_
  cases b with
  | false => exact close_step h.window hpage (.pure _ _)
  | true =>
    obtain ⟨hnd, hzero⟩ := hiff.1 rfl
    have hd' := Direct.withWindow h.tree hpage
    obtain ⟨s', hfree, hreset⟩ := windowFree_run hd' hpage (h.empty_ne_window hp hnd) h.window
    rw [if_pos rfl]
    refine (mmFrameFree_clean (translate_start hd' hpage (withWindow_entry im z t))).step (Observed.mmFrameFree_shows _ t) hfree ?_
    exact (reset_clean_ok hreset).step Observed.reset_shows hreset (hnext hnd hzero)

/-- The last loop of `_unmap`, with the invariant that `unmapUp_run` carries. -/
theorem unmapUp_clean (hva : ¬ SamePage va directVadd) (tabPa : Nat → Nat) : ∀ {d : Nat} {s : PageState} {F : List Nat},
    d ≤ 3 → Inv im (withWord s (tabPa (4 - d) + tabEntryLen * key va d) 0) F →
    (∀ e ≤ d, node im (withWord s (tabPa (4 - d) + tabEntryLen * key va d) 0).mem (Radix.path (key va) e) =
      some (tabPa (4 - e))) →
    Clean Event.Ok (Observed.unmapUp im va tabPa (d + 1) (4 - d)) s := by
  intro d
  induction d with
  | zero =>
    intro s F hd h hp
    have hroot := hp 0 le_rfl
    exact unmapUp_clean_round hd h hroot (h.way_ne_window hva (by omega) hroot) fun _ _ => .pure () _
  | succ d ih =>
    intro s F hd h hp
    have ht := hp (d + 1) le_rfl
    refine unmapUp_clean_round hd h ht (h.way_ne_window hva (by omega) ht) fun hnd hzero => ?_
    obtain ⟨h', hshr, -⟩ := h.detach (hp d (by omega)) ht hnd hzero
    rw [show 4 - (d + 1) + 1 = 4 - d by omega]
    exact ih (by omega) h' fun e he => hshr.way h ht he (hp e (by omega))

theorem freeFramesLoop_clean {l : Leaf} (hh : l.huge = true) (hal : va % 2097152 = 0) (h64 : va < 2 ^ 64) : ∀ {n j : Nat}
    {s : PageState} {F : List Nat}, j + n = 512 → Inv im s F → lookup s.mem im.tab4 va = some l →
    (∀ k, j ≤ k → k < 512 → Unused im s F (l.base + 4096 * k)) →
    Clean Event.Ok (Observed.freeFramesLoop im n (u64 (va + 4096 * j)) (u64 (l.base + 4096 * j))) s := by
  intro n
  induction n with
  | zero => intro j s F _ _ _ _; exact .pure () s
  | succ n ih =>
    intro j s F hj h hl hu
    obtain ⟨-, -, -, -, hb, -⟩ := h.tree.leaf_spec hl
    have huj := hu j le_rfl (by omega)
    obtain ⟨hinv, -, hlook⟩ := h.push huj
    have htr := h.lookup_inside hl hh hal (show j < 512 by omega)
    have hnext : ∀ x, u64 (x + 4096 * j + pageSize4K) = u64 (x + 4096 * (j + 1)) := by
      intro x
      rw [show x + 4096 * j + pageSize4K = x + 4096 * (j + 1) by unfold pageSize4K; omega]
    rw [Observed.freeFramesLoop, u64_step, u64_step, hnext, hnext, u64_of_lt (n := va + 4096 * j) (by omega),
      u64_of_lt (n := l.base + 4096 * j) (by omega)]
    refine (mmFrameFree_clean htr).step (Observed.mmFrameFree_shows _ _) (mmFrameFree_run _ htr) ?_
    refine ih (by omega) hinv ((hlook va).trans hl) fun k h1 h2 => ?_
    exact h.unused_push huj (hu k (by omega) h2) (by omega)

theorem unmapFree_clean (h : Inv im s F) {l : Leaf} (hl : lookup s.mem im.tab4 va = some l) (hal : va % l.size = 0)
    (h64 : va < 2 ^ 64) {free : Bool} (hfree : free = true → ∀ f ∈ l.frames, Unused im s F f) :
    Clean Event.Ok (Observed.unmapFree im va l.size (4 - l.depth) l.base l.huge free) s := by
  obtain ⟨-, -, -, hb4, hb, hb2⟩ := h.tree.leaf_spec hl
  unfold Observed.unmapFree
  unfold Leaf.size Leaf.depth at *
  unfold Leaf.frames at hfree
  cases hh : l.huge with
  | false =>
    rw [hh, if_neg (by decide)] at hal hfree
    have hb' : mmAlignCheck l.base pageSize4K = true := mmAlignCheck_iff.2 hb4
    have htr := translate_base hl hh hal
    rw [if_pos (by decide), if_neg (by decide)]
    refine .quiet_step (kernelAssert_pos rfl _ _)
      (.quiet_step (kernelAssert_pos rfl _ _) (.quiet_step (kernelAssert_pos hb' _ _) ?_))
    cases free with
    | false => exact .pure () s
    | true => exact mmFrameFree_clean htr
  | true =>
    rw [hh, if_pos rfl] at hal hfree
    have hb' : mmAlignCheck l.base pageSize2M = true := mmAlignCheck_iff.2 (hb2 hh)
    unfold pageSize2M at hal
    rw [if_neg (by decide), if_pos (by decide), if_pos rfl]
    refine .quiet_step (kernelAssert_pos rfl _ _)
      (.quiet_step (kernelAssert_pos rfl _ _) (.quiet_step (kernelAssert_pos hb' _ _) ?_))
    cases free with
    | false => exact .pure () s
    | true =>
      have hloop := freeFramesLoop_clean hh hal h64 (n := 512) (j := 0) rfl h hl fun k _ hk =>
        hfree rfl _ (List.mem_map.2 ⟨k, List.mem_range.2 hk, rfl⟩)
      rw [Nat.mul_zero, Nat.add_zero, Nat.add_zero, u64_of_lt h64, u64_of_lt (by omega)] at hloop
      exact hloop

theorem unmap_clean (h : Inv im s F) {l : Leaf} (hl : lookup s.mem im.tab4 va = some l) (hal : va % l.size = 0)
    (h64 : va < 2 ^ 64) {free : Bool} (hfree : free = true → ∀ f ∈ l.frames, Unused im s F f) :
    Clean Event.Ok (Observed.unmap im va l.size free) s := by
  have hva := h.not_window hl
  obtain ⟨-, -, -, -, hb, -⟩ := h.tree.leaf_spec hl
  have hd := l.depth_cases
  have halign : mmAlignCheck va l.size = true := mmAlignCheck_iff.2 hal
  obtain ⟨tabPa, hdown, htabs, hbase, hdec⟩ := h.unmapDown_leaf hl
  obtain ⟨s₁, F₁, hfreed, h₁, hsame, -⟩ := unmapFree_run h hl hal h64 hfree
  have ht := htabs _ le_rfl
  have ht₁ := (hsame.node _).trans ht
  have hdec₁ : decode l.depth (s₁.mem (tabPa (4 - l.depth) + tabEntryLen * key va l.depth)) = .leaf l := by
    rw [hsame.words _ _ ht]; exact hdec
  obtain ⟨hz, hznode, -, -⟩ := h₁.clear hva (by omega) ht₁ hdec₁
  have hup := unmapUp_clean hva tabPa (d := l.depth) (s := s₁) (by omega) hz fun e he => by
    rw [hznode, hsame.node]
    exact htabs e he
  have hroot : node im s.mem (Radix.path (key va) 0) = some (Function.update (fun _ => 0) 4 im.tab4 4) := by
    rw [Function.update_self]
    rfl
  have hlev : 3 - l.depth + 1 = 4 - l.depth := by omega
  have hpa : u64 (tabPa (4 - l.depth - 1) + 0) = l.base := by
    rw [show 4 - l.depth - 1 = 3 - l.depth by omega, hbase, Nat.add_zero, u64_of_lt (by omega)]
  refine .quiet_step (kernelAssert_pos halign _ s) ?_
  refine (unmapDown_clean h hva ht hdec rfl (by omega) hroot).step (Observed.unmapDown_shows va 4 _) hdown ?_
  show Clean Event.Ok (Trace.quiet (kernelAssert (3 - l.depth + 1 = 1 ∨ 3 - l.depth + 1 = 2) _) >>= fun _ => _) s
  refine .quiet_step (kernelAssert_pos (by omega) _ s) ?_
  show Clean Event.Ok (Trace.quiet (vaddPageOffset va (3 - l.depth + 1)) >>= fun off => _) s
  rw [hlev]
  refine .quiet_step (vaddPageOffset_run hal s) ?_
  show Clean Event.Ok (Observed.unmapFree im va l.size (4 - l.depth)
    (u64 (tabPa (4 - l.depth - 1) + 0)) l.huge free >>= fun _ => _) s
  rw [hpa]
  refine (unmapFree_clean h hl hal h64 hfree).step (Observed.unmapFree_shows va _ _ _ _ free) hfreed ?_
  rw [show 5 - (4 - l.depth) = l.depth + 1 by omega]
  exact hup.bind (Observed.unmapUp_shows va _ _ _) fun _ _ _ => .pure _ _

/-! ## Sequences of calls -/

/-- A call of one of the operations. -/
inductive Call where
  | alloc
  | free (va f : Nat)
  | map (va pa : Nat)
  | unmap (va size : Nat) (freeFrame : Bool)

section Call

variable (im : Image)

def Call.code : Call → PageM Unit
  | .alloc => do let _ ← mmFrameAlloc im
  | .free va f => mmFrameFree im va f
  | .map va pa => do let _ ← mmPageMap im va pa
  | .unmap va size freeFrame => do let _ ← Page.unmap im va size freeFrame

/-- The call with its events. -/
def Call.observed : Call → TraceM Unit
  | .alloc => do let _ ← Observed.mmFrameAlloc im
  | .free va f => Observed.mmFrameFree im va f
  | .map va pa => do let _ ← Observed.mmPageMap im va pa
  | .unmap va size freeFrame => do let _ ← Observed.unmap im va size freeFrame

/-- The contract of the caller: a frame is given back where it is mapped, and it is neither free nor a table; a page
is mapped once; a page is unmapped as it was mapped. -/
def Call.Admitted (s : PageState) : Call → Prop
  | .alloc => True
  | .free va f => NotInUse im s f ∧ translate s.mem im.tab4 va = some f
  | .map va pa => va % 4096 = 0 ∧ ¬ SamePage va directVadd ∧ lookup s.mem im.tab4 va = none ∧ IsPage pa
  | .unmap va size freeFrame => va < 2 ^ 64 ∧ ∃ l, lookup s.mem im.tab4 va = some l ∧ size = l.size ∧ va % l.size = 0 ∧
      (freeFrame = true → ∀ f ∈ l.frames, NotInUse im s f)

end Call

variable {c : Call}

theorem Call.shows : ∀ c : Call, Trace.Shows (c.code im) (c.observed im)
  | .alloc => Observed.mmFrameAlloc_shows.bind fun _ => .pure ()
  | .free va f => Observed.mmFrameFree_shows va f
  | .map va pa => (Observed.mmPageMap_shows va pa).bind fun _ => .pure ()
  | .unmap va size freeFrame => (Observed.unmap_shows va size freeFrame).bind fun _ => .pure ()

theorem Call.clean (h : Inv im s F) (hc : c.Admitted im s) : Clean Event.Ok (c.observed im) s := by
  cases c with
  | alloc => exact (mmFrameAlloc_clean h).bind Observed.mmFrameAlloc_shows fun _ _ _ => .pure () _
  | free va f => exact mmFrameFree_clean hc.2
  | map va pa =>
    obtain ⟨hal, hva, hnone, hpa⟩ := hc
    exact (mmPageMap_clean h hal hva hnone hpa).bind (Observed.mmPageMap_shows va pa) fun _ _ _ => .pure () _
  | unmap va size freeFrame =>
    obtain ⟨h64, l, hl, rfl, hal, hfree⟩ := hc
    have hclean := unmap_clean h hl hal h64 fun hf f hm => h.unused (hfree hf f hm)
    exact hclean.bind (Observed.unmap_shows va _ freeFrame) fun _ _ _ => .pure () _

theorem Call.keeps (h : Inv im s F) (hc : c.Admitted im s) (hrun : c.code im s = .ok () s') : ∃ F', Inv im s' F' := by
  cases c with
  | alloc =>
    obtain ⟨r, s₁, hs, hpure⟩ := Exec.bind_eq_ok.1 hrun
    cases hpure
    exact h.after_alloc hs
  | free va f => exact h.after_free hc.1 hc.2 hrun
  | map va pa =>
    obtain ⟨hal, hva, hnone, hpa⟩ := hc
    obtain ⟨ok, s₁, hs, hpure⟩ := Exec.bind_eq_ok.1 hrun
    cases hpure
    obtain ⟨F', N, h', -⟩ := mmPageMap_ok h hal hva hnone hpa hs
    exact ⟨F', h'⟩
  | unmap va size freeFrame =>
    obtain ⟨h64, l, hl, rfl, hal, hfree⟩ := hc
    obtain ⟨pa, s₁, hs, hpure⟩ := Exec.bind_eq_ok.1 hrun
    cases hpure
    obtain ⟨s₂, F', hs', h'⟩ := h.unmap_returns hl hal h64 hfree
    rw [hs] at hs'
    cases hs'
    exact ⟨F', h'⟩

theorem Call.returns (h : Inv im s F) (hc : c.Admitted im s) (hlow : ∀ f ∈ F, IsPage f) : ∃ s', c.code im s = .ok () s' := by
  cases c with
  | alloc =>
    cases F with
    | nil => exact ⟨s, Exec.bind_ok (mmFrameAlloc_nil h)⟩
    | cons f F => exact ⟨popFrame s, Exec.bind_ok (mmFrameAlloc_cons h (hlow f (List.mem_cons_self ..)))⟩
  | free va f => exact ⟨_, mmFrameFree_run f hc.2⟩
  | map va pa =>
    obtain ⟨hal, hva, hnone, hpa⟩ := hc
    rcases mmPageMap_run h hal hva hnone hpa with ⟨ok, s', hrun, -⟩ | ⟨-, x, hx, hhigh⟩
    · exact ⟨s', Exec.bind_ok hrun⟩
    · exact absurd (hlow x hx) hhigh
  | unmap va size freeFrame =>
    obtain ⟨h64, l, hl, rfl, hal, hfree⟩ := hc
    obtain ⟨s', F', hrun, -⟩ := h.unmap_returns hl hal h64 hfree
    exact ⟨s', Exec.bind_ok hrun⟩

/-- The states and traces of sequences of calls that keep to their contract, with writes of memory that is neither a
table nor a free frame in between. -/
inductive Sequence (im : Image) : Traced PageState Event → Prop
  | start {s : PageState} {F : List Nat} : Inv im s F → Sequence im ⟨s, []⟩
  | call {t t' : Traced PageState Event} {c : Call} : Sequence im t → c.Admitted im t.state → c.observed im t = .ok () t' →
      Sequence im t'
  | write {s : PageState} {tr : List Event} {x v : Nat} : Sequence im ⟨s, tr⟩ →
      (∀ t, IsTable im s t → x < t ∨ t + 4096 ≤ x) → ¬ OnFreeList s x → Sequence im ⟨withWord s x v, tr⟩

theorem Sequence.inv {t : Traced PageState Event} (h : Sequence im t) : (∃ F, Inv im t.state F) ∧ ∀ e ∈ t.trace, e.Ok := by
  induction h with
  | start h => exact ⟨⟨_, h⟩, nofun⟩
  | @call t t' c _ hc hrun ih =>
    obtain ⟨⟨F, h⟩, htr⟩ := ih
    have hev := c.clean h hc t.trace htr
    have hplain : Trace.plain (c.observed im t) = c.code im t.state := c.shows t
    rw [hrun] at hev hplain
    exact ⟨c.keeps h hc hplain.symm, hev⟩
  | write _ ht hf ih =>
    obtain ⟨⟨F, h⟩, htr⟩ := ih
    exact ⟨⟨F, (h.after_write _ ht hf).1⟩, htr⟩

/-- In every sequence of calls that keep to their contract, the window is used as `Event.Ok` says and closed between
calls. The next call keeps to it as well, whether it returns or stops, and it returns unless the list holds a frame
above `VA_48_LOW_END`. -/
theorem window_discipline {t : Traced PageState Event} (h : Sequence im t) : (∀ e ∈ t.trace, e.Ok) ∧
    t.state.mem (directTabEntry im) = 0 ∧ ∀ c : Call, c.Admitted im t.state →
      (∀ e ∈ Trace.events (c.observed im t), e.Ok) ∧ Trace.plain (c.observed im t) = c.code im t.state ∧
      (∀ t', c.observed im t = .ok () t' → t'.state.mem (directTabEntry im) = 0) ∧
      ((∀ f, OnFreeList t.state f → f ≤ va48LowEnd) → ∃ t', c.observed im t = .ok () t') := by
  obtain ⟨⟨F, hinv⟩, htr⟩ := h.inv
  refine ⟨htr, hinv.window, fun c hc => ⟨c.clean hinv hc t.trace htr, c.shows t, fun t' hrun => ?_, fun hlow => ?_⟩⟩
  · obtain ⟨⟨F', hinv'⟩, -⟩ := (h.call hc hrun).inv
    exact hinv'.window
  · obtain ⟨s', hrun⟩ := c.returns hinv hc fun f hf => ⟨(hinv.frames f hf).1, hlow f (hinv.onFreeList.2 hf)⟩
    obtain ⟨t', ht', -⟩ := c.shows.ok hrun
    exact ⟨t', ht'⟩

theorem window_discipline_first : ∃ t t', Sequence image₀ t ∧ (Call.map 0 0x400000).Admitted image₀ t.state ∧
    (Call.map 0 0x400000).observed image₀ t = .ok () t' ∧ (∀ e ∈ t'.trace, e.Ok) ∧ t'.state.mem (directTabEntry image₀) = 0 := by
  obtain ⟨s, -, -, hinv, hnone, -⟩ := exists_start
  have hpage : ∀ f ∈ frames₀, IsPage f := fun f hf => (frames₀_spec f hf).1.1
  have halloc : Call.alloc.code image₀ s = .ok () (popFrame s) :=
    Exec.bind_ok (mmFrameAlloc_cons hinv (hpage _ (List.mem_cons_self ..)))
  obtain ⟨t, ht, hstate⟩ := Call.alloc.shows.ok (t := ⟨s, []⟩) halloc
  have hseq : Sequence image₀ t := .call (c := .alloc) (.start hinv) trivial ht
  have hadm : (Call.map 0 0x400000).Admitted image₀ t.state := by
    rw [hstate]
    exact ⟨rfl, by decide, hnone 0, hpage _ (List.mem_cons_self ..)⟩
  obtain ⟨hev, -, hclosed, hreturns⟩ := (window_discipline hseq).2.2 _ hadm
  have hlow : ∀ f, OnFreeList t.state f → f ≤ va48LowEnd := by
    rw [hstate]
    exact fun f hf => (hpage f (List.mem_cons_of_mem _ (hinv.pop.1.onFreeList.1 hf))).2
  obtain ⟨t', hrun⟩ := hreturns hlow
  rw [hrun] at hev
  exact ⟨t, t', hseq, hadm, hrun, hev, hclosed t' hrun⟩

/-- `mm_frame_alloc` stops at an open window. -/
theorem mmFrameAlloc_open (hf : IsFrame f) (hstage : s.isEarlyStage = false) (hhead : s.freeHead = f)
    (hw : s.mem (directTabEntry im) ≠ 0) :
    mmFrameAlloc im s = .error (.assertFail "_tab_entry_is_zero(_direct_tab_entry)") s := by
  have hal : mmAlignCheck f pageSize4K = true := mmAlignCheck_iff.2 hf.1
  have hsetup : mmPageDirectAccessSetup im f s = .error (.assertFail "_tab_entry_is_zero(_direct_tab_entry)") s := by
    unfold mmPageDirectAccessSetup
    rw [Exec.bind_ok (kernelAssert_pos hal _ s), Exec.bind_ok (Exec.get_run s), Exec.bind_error (kernelAssert_neg hw _ s)]
  unfold mmFrameAlloc
  rw [Exec.bind_ok (Exec.get_run s), Exec.bind_ok (kernelAssert_pos hstage _ s), if_neg (hhead ▸ hf.2.1.ne'), hhead,
    Exec.bind_ok (kernelAssert_pos hal _ s), Exec.bind_error hsetup]

/-- The table of the window is mapped like any other page, and then given back as a frame: the window is left open,
and the next `mm_frame_alloc` stops at it. -/
theorem window_left_open : ∃ s s₁ s₂, initDirectAccess image₀ early₀ = .ok () s ∧ Start image₀ s ∧
    mmPageMap image₀ 0 (directTab image₀ 0) s = .ok true s₁ ∧ s₁.mem (directTabEntry image₀) = 0 ∧
    mmFrameFree image₀ 0 (directTab image₀ 0) s₁ = .ok () s₂ ∧ s₂.mem (directTabEntry image₀) ≠ 0 ∧
    mmFrameAlloc image₀ s₂ = .error (.assertFail "_tab_entry_is_zero(_direct_tab_entry)") s₂ := by
  obtain ⟨s, hinit, hstart, hinv, hnone, -⟩ := exists_start
  have hpage : ∀ f ∈ frames₀, IsPage f := fun f hf => (frames₀_spec f hf).1.1
  have htab : IsPage (directTab image₀ 0) := ⟨rfl, by decide⟩
  have hframe : IsFrame (directTab image₀ 0) := ⟨rfl, by decide, by decide⟩
  have hentry : directTabEntry image₀ = directTab image₀ 0 := rfl
  obtain ⟨s₁, F₁, N, hrun, h₁, hF, hN, hmapped⟩ := mmPageMap_true hinv rfl (by decide) (hnone 0) htab hpage (by decide)
  have htr : translate s₁.mem image₀.tab4 0 = some (directTab image₀ 0) := by
    unfold translate
    rw [hmapped.here 0 rfl]
    rfl
  have hhead : s₁.freeHead ≠ 0 := by
    intro e
    have hnil : F₁ = [] := h₁.chain.eq_nil_iff.1 e
    have hlen := congrArg List.length hF
    rw [hnil, List.append_nil] at hlen
    have h6 : frames₀.length = 6 := rfl
    omega
  have hopen : Function.update s₁.mem (directTab image₀ 0) s₁.freeHead (directTabEntry image₀) ≠ 0 := by
    rw [hentry, Function.update_self]
    exact hhead
  exact ⟨s, s₁, _, hinit, hstart, hrun, h₁.window, mmFrameFree_run _ htr, hopen, mmFrameAlloc_open hframe h₁.stage rfl hopen⟩

end Cing.Page
