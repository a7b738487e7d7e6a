/-
What the frames in use hold. mm_frame.c and mm_page.c write to the tables, to the frames of the free list and
to the frames they are given back. A frame in use is none of these, so it keeps its words through every call
that does not give it back, until its owner writes to it.
-/
import Cing.Mm.Page.Discipline
import Cing.Mm.Page.Owner

namespace Cing.Page

variable {im : Image} {s s' s'' : PageState} {F : List Nat} {f g t va pa : Nat}

/-! ## The words of a frame -/

/-- The frame `g` holds the same words. -/
def SameFrame (g : Nat) (s s' : PageState) : Prop := ∀ x, g ≤ x → x < g + 4096 → s'.mem x = s.mem x

theorem SameFrame.refl (g : Nat) (s : PageState) : SameFrame g s s := fun _ _ _ => rfl

theorem SameFrame.trans (h : SameFrame g s s') (h' : SameFrame g s' s'') : SameFrame g s s'' := fun x h1 h2 =>
  (h' x h1 h2).trans (h x h1 h2)

theorem withWord_self (s : PageState) (x v : Nat) : (withWord s x v).mem x = v := Function.update_self ..

/-- A word written elsewhere. -/
theorem SameFrame.word {x : Nat} (hx : x < g ∨ g + 4096 ≤ x) (s : PageState) (v : Nat) : SameFrame g s (withWord s x v) :=
  fun y h1 h2 => Function.update_of_ne (by omega) _ _

/-- An entry of another page. -/
theorem SameFrame.entry (hg : g % 4096 = 0) (ht : t % 4096 = 0) (hne : t ≠ g) (s : PageState) (i : Fin 512) (v : Nat) :
    SameFrame g s (withWord s (t + tabEntryLen * i) v) := by
  have hi := i.isLt
  refine .word ?_ s v
  unfold tabEntryLen
  omega

/-- Another frame put on the list. -/
theorem SameFrame.push (hg : g % 4096 = 0) (hf : f % 4096 = 0) (hne : f ≠ g) (s : PageState) : SameFrame g s (pushFrame s f) :=
  fun y h1 h2 => Function.update_of_ne (by omega) _ _

/-- A word of a frame in use is no word of a table and not the link of a free frame. -/
theorem Unused.word (hg : Unused im s F g) (h : Inv im s F) {x : Nat} (h1 : g ≤ x) (h2 : x < g + 4096) :
    (∀ t, IsTable im s t → x < t ∨ t + 4096 ≤ x) ∧ ¬ OnFreeList s x := by
  have hgal := hg.frame.align
  refine ⟨fun t ⟨q, hq⟩ => ?_, fun hf => ?_⟩
  · have hal := h.tree.align hq
    have hne : t ≠ g := fun e => hg.notTable q (e ▸ hq)
    omega
  · have hm := h.onFreeList.1 hf
    have hal := (h.frames x hm).align
    exact hg.notFree ((show x = g by omega) ▸ hm)

/-! ## mm_page_map -/

/-- The start of a round zeroes a frame of the list. -/
theorem spareFrame_same (h : Inv im s (f :: F)) (hpage : IsPage f) (hg : g % 4096 = 0) (hne : f ≠ g) :
    ∃ s', spareFrame im 0 s = .ok (some f) s' ∧ Inv im s' F ∧ Spare im s' F f ∧ Grown im va s s' [] ∧ SameFrame g s s' := by
  obtain ⟨s', hrun, h', hsp, hgr, hmem⟩ := spareFrame_cons va h hpage
  have hal := hpage.bounds.1
  refine ⟨s', hrun, h', hsp, hgr, fun x h1 h2 => hmem x fun j hj => ?_⟩
  unfold tabEntryLen
  omega

/-- The loop of `mm_page_map` writes to tables and to frames that it takes from the list. -/
theorem mapLoop_same (va : Nat) : ∀ {n d : Nat} {s : PageState} {F : List Nat} {t f : Nat} {r : Bool × Nat × Nat}, n + d = 3 →
    Inv im s F → node im s.mem (Radix.path (key va) d) = some t → lookup s.mem im.tab4 va = none → (f = 0 ∨ Spare im s F f) →
    Unused im s F g → f ≠ g → mapLoop im va (n + 1) t f s = .ok r s' → SameFrame g s s' := by
  intro n
  induction n with
  | zero =>
    intro d s F t f r _ _ _ _ _ _ _ hrun
    cases hrun
    exact .refl g _
  | succ n ih =>
    intro d s F t f r hd h hp hnone hf hg hne hrun
    have hkey : key va d = tabIndex va (n + 2) := by rw [key, show 4 - d = n + 2 by omega]
    have hlen : (Radix.path (key va) d).length < 3 := by rw [Radix.path_length]; omega
    have hgal := hg.frame.align
    -- a round with a frame in hand
    have main : ∀ {s : PageState} {F : List Nat} {f : Nat}, Inv im s F → node im s.mem (Radix.path (key va) d) = some t →
        lookup s.mem im.tab4 va = none → Spare im s F f → Unused im s F g → f ≠ g →
        mapLoop im va (n + 2) t f s = .ok r s' → SameFrame g s s' := by
      intro s F f h hp hnone hsp hg hne hrun
      rcases h.tree.table_or_zero hnone (by omega) hp with hz | ⟨c, hc⟩
      · have hlink := @mapLoop_link _ _ _ _ _ va _ n h hsp (by omega) hp hlen (hkey ▸ hz)
        obtain ⟨h₁, hn1, hn2, hlook⟩ := h.link hsp hp hlen hz
        rw [← hkey] at hlink
        have hg₁ : Unused im (withWord s (t + tabEntryLen * key va d) (f + 3)) F g := by
          refine ⟨hg.frame, hg.notFree, fun q hq => ?_⟩
          by_cases e : q = key va d :: Radix.path (key va) d
          · rw [e, hn1] at hq
            exact hne (Option.some.inj hq)
          · exact hg.notTable q ((hn2 q e).symm.trans hq)
        have htg : t ≠ g := fun e => hg.notTable _ (e ▸ hp)
        have hentry := SameFrame.entry hgal (h.tree.align hp) htg s (key va d) (f + 3)
        have hrun₁ := hlink.symm.trans hrun
        exact hentry.trans (ih (d := d + 1) (by omega) h₁ hn1 ((hlook va).trans hnone) (.inl rfl) hg₁ hg.frame.2.1.ne hrun₁)
      · have htable := @mapLoop_table _ _ _ _ _ _ va _ n h hsp.frame.2.1.ne' (by omega) hp hlen (by rw [← hkey]; exact hc)
        exact ih (by omega) h hc hnone (.inr hsp) hg hne (htable.symm.trans hrun)
    rcases hf with rfl | hsp
    · cases F with
      | nil =>
        rw [mapLoop, Exec.bind_ok (spareFrame_nil h)] at hrun
        cases hrun
        exact .refl g _
      | cons x F =>
        have hxg : x ≠ g := fun e => hg.notFree (e ▸ List.mem_cons_self ..)
        by_cases hpage : IsPage x
        · obtain ⟨s₁, hspare, h₁, hsp, hgr, hsame⟩ := @spareFrame_same _ _ _ _ _ va h hpage hgal hxg
          have hg₁ : Unused im s₁ F g := by
            refine hg.mono (fun hn hm => hn (List.mem_cons_of_mem _ hm)) fun ht => .inl ?_
            simpa using hgr.isTable.1 ht
          have hround := @mapLoop_spare _ _ _ _ t va n hspare hsp.frame.2.1.ne'
          exact hsame.trans (main h₁ (hgr.old hp) ((hgr.lookup va).trans hnone) hsp hg₁ hxg (hround.symm.trans hrun))
        · obtain ⟨expr, he⟩ := spareFrame_high h hpage
          rw [mapLoop, Exec.bind_error he] at hrun
          cases hrun
    · exact main h hp hnone hsp hg hne hrun

/-- `mm_page_map` writes to tables and to frames of the list. -/
theorem mmPageMap_same (h : Inv im s F) (hal : va % 4096 = 0) (hva : ¬ SamePage va directVadd)
    (hnone : lookup s.mem im.tab4 va = none) (hpa : IsPage pa) (hg : Unused im s F g) {ok : Bool}
    (hrun : mmPageMap im va pa s = .ok ok s') : SameFrame g s s' := by
  have hal1 : mmAlignCheck va pageSize4K = true := mmAlignCheck_iff.2 hal
  have hal2 : mmAlignCheck pa pageSize4K = true := mmAlignCheck_iff.2 hpa.1
  have hgal := hg.frame.align
  unfold mmPageMap at hrun
  rw [Exec.bind_ok (kernelAssert_pos hal1 _ s), Exec.bind_ok (kernelAssert_pos hal2 _ s)] at hrun
  rcases mapLoop_run va (n := 3) (d := 0) rfl h rfl hnone (.inl rfl) with
    ⟨ok', t, f, s₁, F₁, N, hloop, h₁, hf, hF, hgr, hok, hfail⟩ | ⟨⟨e, s₁, hloop⟩, -⟩
  case inr =>
    rw [Exec.bind_error hloop] at hrun
    cases hrun
  have hsame := mapLoop_same va (n := 3) (d := 0) rfl h rfl hnone (.inl rfl) hg hg.frame.2.1.ne hloop
  rw [hand_zero, List.nil_append] at hF
  have hg₁ : Unused im s₁ F₁ g := by
    refine hg.mono (fun hn hm => hn ?_) fun ht => (hgr.isTable.1 ht).imp_right fun hm => ?_
    · rw [hF]
      exact List.mem_append_right _ (List.mem_append_right _ hm)
    · rw [hF]
      exact List.mem_append_left _ hm
  rw [Exec.bind_ok hloop, Exec.bind_ok (directAccessIsReset_run h₁.window), Exec.bind_ok (kernelAssert_pos rfl _ _)] at hrun
  cases ok' with
  | false =>
    obtain ⟨rfl, -⟩ := hfail rfl
    cases hrun
    exact hsame
  | true =>
    have ht := hok rfl
    have hz := h₁.leaf_zero ((hgr.lookup va).trans hnone) ht
    obtain ⟨h₂, hnode₂, -, -⟩ := h₁.leaf ht hz hva hpa
    have htg : t ≠ g := fun e => hg₁.notTable _ (e ▸ ht)
    have hleaf := SameFrame.entry hgal (h₁.tree.align ht) htg s₁ (key va 3) (pa + 3)
    rw [if_pos rfl, Exec.bind_ok (mapLeaf_run h₁ ht hz hva hpa)] at hrun
    rcases hf with rfl | hsp
    · cases hrun
      exact hsame.trans hleaf
    · have hf₂ : Unused im (withWord s₁ (t + tabEntryLen * key va 3) (pa + 3)) F₁ f :=
        ⟨hsp.frame, hsp.notFree, fun q e => hsp.notTable q ((hnode₂ q).symm.trans e)⟩
      have hfg : f ≠ g := by
        rintro rfl
        refine hg.notFree ?_
        rw [hF, hand_frame hsp.frame]
        exact List.mem_append_right _ (List.mem_append_left _ (List.mem_singleton_self f))
      rw [if_pos hsp.frame.2.1.ne', Exec.bind_ok (returnFrame_run h₂ hf₂ hsp.page)] at hrun
      cases hrun
      exact hsame.trans (hleaf.trans (.push hgal hsp.frame.align hfg _))

/-! ## _unmap -/

/-- The frames of a 2M page go to the list one by one. -/
theorem freeFramesLoop_same {l : Leaf} (hh : l.huge = true) (hal : va % 2097152 = 0) (h64 : va < 2 ^ 64) (hg : g % 4096 = 0)
    (hgl : ∀ k < 512, l.base + 4096 * k ≠ g) : ∀ {n j : Nat} {s : PageState} {F : List Nat}, j + n = 512 → Inv im s F →
    lookup s.mem im.tab4 va = some l → (∀ k, j ≤ k → k < 512 → Unused im s F (l.base + 4096 * k)) →
    freeFramesLoop im n (u64 (va + 4096 * j)) (u64 (l.base + 4096 * j)) s = .ok () s' → SameFrame g s s' := by
  intro n
  induction n with
  | zero =>
    intro j s F _ _ _ _ hrun
    cases hrun
    exact .refl g _
  | succ n ih =>
    intro j s F hj h hl hu hrun
    obtain ⟨-, -, -, -, hb, -⟩ := h.tree.leaf_spec hl
    have huj := hu j le_rfl (by omega)
    obtain ⟨hinv, -, hlook⟩ := h.push huj
    have hnext : ∀ x, x + 4096 * (j + 1) = x + 4096 * j + pageSize4K := by intro x; unfold pageSize4K; omega
    rw [freeFramesLoop, u64_step, u64_step, u64_of_lt (n := va + 4096 * j) (by omega),
      u64_of_lt (n := l.base + 4096 * j) (by omega),
      Exec.bind_ok (mmFrameFree_run _ (h.lookup_inside hl hh hal (by omega))), ← hnext, ← hnext] at hrun
    refine (SameFrame.push hg huj.frame.align (hgl j (by omega)) s).trans (ih (j := j + 1) (by omega) hinv ((hlook va).trans hl)
      (fun k h1 h2 => h.unused_push huj (hu k (by omega) h2) (by omega)) hrun)

theorem unmapFree_same (h : Inv im s F) {l : Leaf} (hl : lookup s.mem im.tab4 va = some l) (hal : va % l.size = 0)
    (h64 : va < 2 ^ 64) {free : Bool} (hfree : free = true → ∀ f ∈ l.frames, Unused im s F f) (hg : g % 4096 = 0)
    (hgl : free = true → g ∉ l.frames)
    (hrun : unmapFree im va l.size (4 - l.depth) l.base l.huge free s = .ok () s') : SameFrame g s s' := by
  obtain ⟨-, -, -, hb4, hb, hb2⟩ := h.tree.leaf_spec hl
  unfold unmapFree at hrun
  unfold Leaf.size Leaf.depth at *
  unfold Leaf.frames at hfree hgl
  cases hh : l.huge with
  | false =>
    rw [hh, if_neg (by decide)] at hal hfree hgl
    have hb' : mmAlignCheck l.base pageSize4K = true := mmAlignCheck_iff.2 hb4
    have htr := translate_base hl hh hal
    rw [hh, if_pos (by decide), if_neg (by decide), Exec.bind_ok (kernelAssert_pos rfl _ _),
      Exec.bind_ok (kernelAssert_pos rfl _ _), Exec.bind_ok (kernelAssert_pos hb' _ _)] at hrun
    cases free with
    | false =>
      cases hrun
      exact .refl g _
    | true =>
      have hu := hfree rfl l.base (List.mem_singleton_self _)
      rw [if_pos rfl, mmFrameFree_run _ htr] at hrun
      cases hrun
      exact .push hg hu.frame.align (fun e => hgl rfl (e ▸ List.mem_singleton_self _)) s
  | true =>
    rw [hh, if_pos rfl] at hal hfree hgl
    have hb' : mmAlignCheck l.base pageSize2M = true := mmAlignCheck_iff.2 (hb2 hh)
    unfold pageSize2M at hal
    rw [hh, if_neg (by decide), if_pos (by decide), if_pos rfl, Exec.bind_ok (kernelAssert_pos rfl _ _),
      Exec.bind_ok (kernelAssert_pos rfl _ _), Exec.bind_ok (kernelAssert_pos hb' _ _)] at hrun
    cases free with
    | false =>
      cases hrun
      exact .refl g _
    | true =>
      refine freeFramesLoop_same hh hal h64 hg (fun k hk e => hgl rfl ?_) (n := 512) (j := 0) rfl h hl (fun k _ hk =>
        hfree rfl _ (List.mem_map.2 ⟨k, List.mem_range.2 hk, rfl⟩)) ?_
      · exact List.mem_map.2 ⟨k, List.mem_range.2 hk, e⟩
      · rw [Nat.mul_zero, Nat.add_zero, Nat.add_zero, u64_of_lt h64, u64_of_lt (by omega)]
        exact hrun

/-- The last loop of `_unmap` clears entries of tables and puts tables on the list. -/
theorem unmapUp_same (hva : ¬ SamePage va directVadd) (tabPa : Nat → Nat) : ∀ {d : Nat} {s : PageState} {F : List Nat},
    d ≤ 3 → Inv im (withWord s (tabPa (4 - d) + tabEntryLen * key va d) 0) F →
    (∀ e ≤ d, node im (withWord s (tabPa (4 - d) + tabEntryLen * key va d) 0).mem (Radix.path (key va) e) =
      some (tabPa (4 - e))) →
    Unused im (withWord s (tabPa (4 - d) + tabEntryLen * key va d) 0) F g →
    unmapUp im va tabPa (d + 1) (4 - d) s = .ok () s' → SameFrame g s s' := by
  intro d
  induction d with
  | zero =>
    intro s F hd h hp hg hrun
    have hroot := hp 0 le_rfl
    obtain ⟨b, hb, hround⟩ := unmapUp_round (n := 0) hd h hroot (h.short_ne_window hroot (by simp) _)
    have hb' : ¬ b = true := fun e => h.empty_not_static hroot (hb.1 e).1 (hb.1 e).2 (List.nil_suffix)
    rw [hround, if_neg hb'] at hrun
    have htg : tabPa (4 - 0) ≠ g := fun e => hg.notTable _ (hroot.trans (congrArg some e))
    cases hrun
    exact .entry hg.frame.align (h.tree.align hroot) htg s (key va 0) 0
  | succ d ih =>
    intro s F hd h hp hg hrun
    have ht := hp (d + 1) le_rfl
    have hpar := hp d (by omega)
    have htg : tabPa (4 - (d + 1)) ≠ g := fun e => hg.notTable _ (ht.trans (congrArg some e))
    have hentry := SameFrame.entry hg.frame.align (h.tree.align ht) htg s (key va (d + 1)) 0
    obtain ⟨b, hb, hround⟩ := unmapUp_round (n := d + 1) hd h ht (h.way_ne_window hva (by omega) ht)
    rw [hround] at hrun
    refine hentry.trans ?_
    generalize withWord s (tabPa (4 - (d + 1)) + tabEntryLen * key va (d + 1)) 0 = z at *
    cases b with
    | false =>
      rw [if_neg (by decide)] at hrun
      cases hrun
      exact .refl g _
    | true =>
      obtain ⟨hnd, hzero⟩ := hb.1 rfl
      rw [if_pos rfl, show 4 - (d + 1) + 1 = 4 - d by omega] at hrun
      obtain ⟨h', hshr, -⟩ := h.detach hpar ht hnd hzero
      have hpush := SameFrame.push hg.frame.align (h.tree.align ht) htg z
      refine hpush.trans (ih (by omega) h' (fun e he => hshr.way h ht he (hp e (by omega))) ?_ hrun)
      refine ⟨hg.frame, fun hm => ?_, fun q hq => hg.notTable q (hshr.node.1 hq).1⟩
      rcases List.mem_cons.1 hm with e | hm
      · exact htg e.symm
      · exact hg.notFree hm

/-- `_unmap` writes to tables and to the frames it gives back. -/
theorem unmap_same (h : Inv im s F) {l : Leaf} (hl : lookup s.mem im.tab4 va = some l) (hal : va % l.size = 0)
    (h64 : va < 2 ^ 64) {free : Bool} (hfree : free = true → ∀ f ∈ l.frames, Unused im s F f) (hg : Unused im s F g)
    (hgl : free = true → g ∉ l.frames) (hrun : unmap im va l.size free s = .ok pa s') : SameFrame g s s' := by
  have hva := h.not_window hl
  obtain ⟨-, -, -, -, hb, -⟩ := h.tree.leaf_spec hl
  have hd := l.depth_cases
  have halign : mmAlignCheck va l.size = true := mmAlignCheck_iff.2 hal
  have hlev : 3 - l.depth + 1 = 4 - l.depth := by omega
  obtain ⟨tabPa, hdown, htabs, hbase, hdec⟩ := h.unmapDown_leaf hl
  obtain ⟨s₁, F₁, hfreed, h₁, hsame, hF⟩ := unmapFree_frames h hl hal h64 hfree
  have hg₁ : g ∉ F₁ := fun hm => (hF g hm).elim hg.notFree fun ⟨hfr, hm⟩ => hgl hfr hm
  -- the leaf, cleared in the memory in which the frames are free
  have ht₁ := (hsame.node _).trans (htabs _ le_rfl)
  have hdec₁ : decode l.depth (s₁.mem (tabPa (4 - l.depth) + tabEntryLen * key va l.depth)) = .leaf l := by
    rw [hsame.words _ _ (htabs _ le_rfl)]
    exact hdec
  obtain ⟨hz, hznode, -, -⟩ := h₁.clear hva (by omega) ht₁ hdec₁
  have hpa : u64 (tabPa (3 - l.depth + 1 - 1) + 0) = l.base := by
    rw [Nat.add_sub_cancel, hbase, Nat.add_zero, u64_of_lt (by omega)]
  unfold unmap at hrun
  rw [Exec.bind_ok (kernelAssert_pos halign _ s), Exec.bind_ok hdown] at hrun
  replace hrun : (kernelAssert (3 - l.depth + 1 = 1 ∨ 3 - l.depth + 1 = 2) _ >>= fun _ => _) s = _ := hrun
  rw [Exec.bind_ok (kernelAssert_pos (by omega) _ s)] at hrun
  replace hrun : (vaddPageOffset va (3 - l.depth + 1) >>= fun off => _) s = _ := hrun
  rw [hlev, Exec.bind_ok (vaddPageOffset_run hal s)] at hrun
  replace hrun : (unmapFree im va l.size (4 - l.depth) (u64 (tabPa (4 - l.depth - 1) + 0)) l.huge free >>= fun _ => _) s = _ := hrun
  rw [← hlev, hpa, hlev, Exec.bind_ok hfreed, show 5 - (4 - l.depth) = l.depth + 1 by omega] at hrun
  obtain ⟨_, s₂, hup, hpure⟩ := Exec.bind_eq_ok.1 hrun
  cases hpure
  refine (unmapFree_same h hl hal h64 hfree hg.frame.align hgl hfreed).trans ?_
  refine unmapUp_same hva tabPa (by omega) hz (fun e he => ?_) ⟨hg.frame, hg₁, fun q hq => ?_⟩ hup
  · rw [hznode, hsame.node]
    exact htabs e he
  · exact hg.notTable q ((hsame.node q).symm.trans ((hznode q).symm.trans hq))

/-! ## Calls -/

/-- The call does not give the frame `g` back. -/
def Call.Spares (im : Image) (s : PageState) (g : Nat) : Call → Prop
  | .alloc => True
  | .free _ f => f ≠ g
  | .map _ _ => True
  | .unmap va _ freeFrame => freeFrame = true → ∀ l, lookup s.mem im.tab4 va = some l → g ∉ l.frames

/-- A frame in use is still in use after a call that does not give it back, and holds what it held. -/
theorem Call.keepsFrame {c : Call} (h : Inv im s F) (hc : c.Admitted im s) (hsp : c.Spares im s g) (hg : Unused im s F g)
    (hrun : c.code im s = .ok () s') : ∃ F', Inv im s' F' ∧ Unused im s' F' g ∧ SameFrame g s s' := by
  cases c with
  | alloc =>
    obtain ⟨r, s₁, hs, hpure⟩ := Exec.bind_eq_ok.1 hrun
    cases hpure
    cases r with
    | none =>
      obtain ⟨-, rfl⟩ := mmFrameAlloc_none h hs
      exact ⟨F, h, hg, .refl g _⟩
    | some f =>
      obtain ⟨F, rfl, -, rfl⟩ := mmFrameAlloc_some h hs
      exact ⟨F, h.pop.1, hg.mono (fun hn hx => hn (List.mem_cons_of_mem _ hx)) .inl, fun _ _ _ => rfl⟩
  | free va f =>
    obtain ⟨hf, htr⟩ := hc
    have hu := h.unused hf
    have hfree : mmFrameFree im va f s = .ok () s' := hrun
    rw [mmFrameFree_run f htr] at hfree
    cases hfree
    exact ⟨f :: F, (h.push hu).1, h.unused_push hu hg (Ne.symm hsp), .push hg.frame.align hu.frame.align hsp s⟩
  | map va pa =>
    obtain ⟨hal, hva, hnone, hpa⟩ := hc
    obtain ⟨ok, s₁, hs, hpure⟩ := Exec.bind_eq_ok.1 hrun
    cases hpure
    obtain ⟨F', N, h', rfl, hfail, hok⟩ := mmPageMap_ok h hal hva hnone hpa hs
    refine ⟨F', h', hg.mono (fun hn hx => hn (List.mem_append_right _ hx)) fun ht => ?_, mmPageMap_same h hal hva hnone hpa hg hs⟩
    cases ok with
    | false => exact ((hfail rfl).2.isTable.1 ht).imp_right (List.mem_append_left _)
    | true => exact ((hok rfl).isTable.1 ht).imp_right (List.mem_append_left _)
  | unmap va size freeFrame =>
    obtain ⟨h64, l, hl, rfl, hal, hfree⟩ := hc
    have hfree' : freeFrame = true → ∀ f ∈ l.frames, Unused im s F f := fun hf f hm => h.unused (hfree hf f hm)
    have hgl : freeFrame = true → g ∉ l.frames := fun hf => hsp hf l hl
    obtain ⟨pa, s₁, hs, hpure⟩ := Exec.bind_eq_ok.1 hrun
    cases hpure
    obtain ⟨s₁, F₁, hfreed, h₁, hsame, hF⟩ := unmapFree_frames h hl hal h64 hfree'
    obtain ⟨s₂, R, hs₂, h₂, hun⟩ := unmap_run h hl hal hfreed h₁ hsame
    rw [hs] at hs₂
    cases hs₂
    refine ⟨R ++ F₁, h₂, hg.mono (fun _ hm => ?_) fun ht => .inl (hun.isTable.1 ht).1, unmap_same h hl hal h64 hfree' hg hgl hs⟩
    rcases List.mem_append.1 hm with hR | hm
    · obtain ⟨q, hq⟩ := hun.tables g hR
      exact hg.notTable q hq
    · exact (hF g hm).elim hg.notFree fun ⟨hfr, hm⟩ => hgl hfr hm

/-- The call maps or unmaps no page that the address lies in. -/
def Call.Leaves (im : Image) (s : PageState) (va : Nat) : Call → Prop
  | .alloc => True
  | .free _ _ => True
  | .map va' _ => ¬ SamePage va va'
  | .unmap va' _ _ => ∀ l, lookup s.mem im.tab4 va' = some l →
      Radix.path (key va) (l.depth + 1) ≠ Radix.path (key va') (l.depth + 1)

theorem Call.keepsLookup {c : Call} (h : Inv im s F) (hc : c.Admitted im s) (hva : c.Leaves im s va)
    (hrun : c.code im s = .ok () s') : lookup s'.mem im.tab4 va = lookup s.mem im.tab4 va := by
  cases c with
  | alloc =>
    obtain ⟨r, s₁, hs, hpure⟩ := Exec.bind_eq_ok.1 hrun
    cases hpure
    cases r with
    | none =>
      obtain ⟨-, rfl⟩ := mmFrameAlloc_none h hs
      rfl
    | some f =>
      obtain ⟨F, rfl, -, rfl⟩ := mmFrameAlloc_some h hs
      rfl
  | free va' f =>
    obtain ⟨hf, htr⟩ := hc
    have hfree : mmFrameFree im va' f s = .ok () s' := hrun
    rw [mmFrameFree_run f htr] at hfree
    cases hfree
    exact (h.push (h.unused hf)).2.2 va
  | map va' pa =>
    obtain ⟨hal, hw, hnone, hpa⟩ := hc
    obtain ⟨ok, s₁, hs, hpure⟩ := Exec.bind_eq_ok.1 hrun
    cases hpure
    obtain ⟨F', N, h', rfl, hfail, hok⟩ := mmPageMap_ok h hal hw hnone hpa hs
    cases ok with
    | false => exact (hfail rfl).2.lookup va
    | true => exact (hok rfl).elsewhere va hva
  | unmap va' size freeFrame =>
    obtain ⟨h64, l, hl, rfl, hal, hfree⟩ := hc
    obtain ⟨pa, s₁, hs, hpure⟩ := Exec.bind_eq_ok.1 hrun
    cases hpure
    obtain ⟨s₁, F₁, hfreed, h₁, hsame, -⟩ := unmapFree_frames h hl hal h64 fun hf f hm => h.unused (hfree hf f hm)
    obtain ⟨s₂, R, hs₂, -, hun⟩ := unmap_run h hl hal hfreed h₁ hsame
    rw [hs] at hs₂
    cases hs₂
    exact hun.elsewhere va (hva l hl)

/-! ## Runs -/

/-- Runs from `s` on by others than the owner of the frame `g`: calls that keep to their contract and do not give it
back, and writes to other memory that is neither a table nor a free frame. -/
inductive Sparing (im : Image) (g : Nat) (s : PageState) : PageState → Prop
  | refl : Sparing im g s s
  | call {s' s'' : PageState} {c : Call} : Sparing im g s s' → c.Admitted im s' → c.Spares im s' g → c.code im s' = .ok () s'' →
      Sparing im g s s''
  | write {s' : PageState} {x v : Nat} : Sparing im g s s' → (∀ t, IsTable im s' t → x < t ∨ t + 4096 ≤ x) → ¬ OnFreeList s' x →
      (x < g ∨ g + 4096 ≤ x) → Sparing im g s (withWord s' x v)

theorem Sparing.keeps (h : Inv im s F) (hg : Unused im s F g) (hrun : Sparing im g s s') :
    ∃ F', Inv im s' F' ∧ Unused im s' F' g ∧ SameFrame g s s' := by
  induction hrun with
  | refl => exact ⟨F, h, hg, .refl g s⟩
  | call _ hc hsp hcode ih =>
    obtain ⟨F₁, h₁, hg₁, hsame⟩ := ih
    obtain ⟨F', h', hg', hsame'⟩ := Call.keepsFrame h₁ hc hsp hg₁ hcode
    exact ⟨F', h', hg', hsame.trans hsame'⟩
  | write _ ht hf hx ih =>
    obtain ⟨F₁, h₁, hg₁, hsame⟩ := ih
    obtain ⟨h', hnode, -⟩ := h₁.after_write _ ht hf
    exact ⟨F₁, h', hg₁.mono id fun ⟨q, hq⟩ => .inl ⟨q, (hnode q).symm.trans hq⟩, hsame.trans (.word hx _ _)⟩

/-- Whatever others do, a frame in use is not given out again and no table is put into it, and it holds what it held. -/
theorem frame_private (h : Reach im s) (hg : NotInUse im s g) (hrun : Sparing im g s s') : NotInUse im s' g ∧
    (∀ r s'', mmFrameAlloc im s' = .ok r s'' → r ≠ some g) ∧ ∀ x, g ≤ x → x < g + 4096 → s'.mem x = s.mem x := by
  obtain ⟨F, hinv⟩ := h.inv
  obtain ⟨F', hinv', hg', hsame⟩ := hrun.keeps hinv (hinv.unused hg)
  refine ⟨⟨hg'.frame, fun hf => hg'.notFree (hinv'.onFreeList.1 hf), fun ⟨q, hq⟩ => hg'.notTable q hq⟩, ?_, hsame⟩
  rintro r s'' halloc rfl
  obtain ⟨F₁, rfl, -⟩ := mmFrameAlloc_some hinv' halloc
  exact hg'.notFree (List.mem_cons_self ..)

/-- A word written into a frame is still there when the frame is mapped. -/
theorem frame_private_mapped : ∃ s s', Reach image₀ s ∧ s.mem 0x400008 = 7 ∧ Sparing image₀ 0x400000 s s' ∧
    lookup s'.mem image₀.tab4 0 = some ⟨0x400000, true, false⟩ ∧ s'.mem 0x400008 = 7 := by
  obtain ⟨s, -, hstart, hinv, hnone, -⟩ := exists_start
  have hpage : ∀ f ∈ frames₀, IsPage f := fun f hf => (frames₀_spec f hf).1.1
  have halloc := mmFrameAlloc_cons hinv (hpage _ (List.mem_cons_self ..))
  obtain ⟨hpop, hu⟩ := hinv.pop
  obtain ⟨ht, hf⟩ := hu.word hpop (x := 0x400008) (by decide) (by decide)
  obtain ⟨hinv₁, hnode, hlook⟩ := hpop.after_write 7 ht hf
  have hreach : Reach image₀ (withWord (popFrame s) 0x400008 7) := .write (.alloc (.start hstart) halloc) ht hf
  have hword : (withWord (popFrame s) 0x400008 7).mem 0x400008 = 7 := withWord_self _ _ _
  have hnone₁ : lookup (withWord (popFrame s) 0x400008 7).mem image₀.tab4 0 = none := (hlook 0).trans (hnone 0)
  have hg : NotInUse image₀ (withWord (popFrame s) 0x400008 7) 0x400000 :=
    ⟨hu.frame, fun hm => hu.notFree (hinv₁.onFreeList.1 hm), fun ⟨q, hq⟩ => hu.notTable q ((hnode q).symm.trans hq)⟩
  obtain ⟨s', F', N, hrun, -, -, -, hmap⟩ := mmPageMap_true hinv₁ rfl (by decide) hnone₁ (hpage _ (List.mem_cons_self ..))
    (fun f hf => hpage f (List.mem_cons_of_mem _ hf)) (by decide)
  have hadm : (Call.map 0 0x400000).Admitted image₀ (withWord (popFrame s) 0x400008 7) :=
    ⟨rfl, by decide, hnone₁, hpage _ (List.mem_cons_self ..)⟩
  have hsp : Sparing image₀ 0x400000 (withWord (popFrame s) 0x400008 7) s' :=
    .call (c := .map 0 0x400000) .refl hadm trivial (Exec.bind_ok hrun)
  obtain ⟨-, -, hsame⟩ := frame_private hreach hg hsp
  exact ⟨_, s', hreach, hword, hsp, hmap.here 0 rfl, (hsame 0x400008 (by decide) (by decide)).trans hword⟩

end Cing.Page
