/-
`_map_impl`. Its loop moves one of two cursors in each round, the page of a range or the range, and
passes over ranges without pages. Read as one list, the ranges are the pages to map, in order: the loop
does the same as a loop over that list.
-/
import Cing.Mem.Map

namespace Cing.Mem

open Exec Page

/-! ## The pages of a list -/

/-- The pages of a range. -/
def PaList.rangePages (list : PaList) (r : Nat) : List Nat :=
  (List.range (list.nPg r)).map fun k => u64 (list.pa r + k * pageSize4K)

/-- The pages of the ranges from `r` on. -/
def PaList.pagesFrom (list : PaList) (r : Nat) : List Nat := (List.range' r (list.n - r)).flatMap list.rangePages

/-- The pages of all ranges, one after another. -/
def PaList.pages (list : PaList) : List Nat := (List.range list.n).flatMap list.rangePages

/-- Ranges begin at a page, as `pa_list_set_range` checks; a range without pages may begin anywhere. -/
def PaList.Aligned (list : PaList) : Prop := ∀ r < list.n, list.nPg r ≠ 0 → list.pa r % pageSize4K = 0

section Pages

variable {list : PaList} {r k : Nat}

theorem PaList.rangePages_length (list : PaList) (r : Nat) : (list.rangePages r).length = list.nPg r := by
  simp [rangePages]

theorem PaList.pagesFrom_zero (list : PaList) : list.pagesFrom 0 = list.pages := by
  rw [pagesFrom, pages, Nat.sub_zero, List.range_eq_range']

theorem PaList.pagesFrom_lt (hr : r < list.n) : list.pagesFrom r = list.rangePages r ++ list.pagesFrom (r + 1) := by
  obtain ⟨m, hm⟩ : ∃ m, list.n - r = m + 1 := ⟨list.n - r - 1, by omega⟩
  rw [pagesFrom, pagesFrom, hm, show list.n - (r + 1) = m by omega, List.range'_succ, List.flatMap_cons]

theorem PaList.pagesFrom_ge (hr : list.n ≤ r) : list.pagesFrom r = [] := by
  rw [pagesFrom, Nat.sub_eq_zero_of_le hr]
  rfl

/-- The next page of a range that has one. -/
theorem PaList.drop_page (hr : r < list.n) (hk : k < list.nPg r) :
    (list.pagesFrom r).drop k = u64 (list.pa r + k * pageSize4K) :: (list.pagesFrom r).drop (k + 1) := by
  have hlen : k < (list.rangePages r).length := by rw [rangePages_length]; exact hk
  rw [pagesFrom_lt hr, List.drop_append_of_le_length hlen.le, List.drop_append_of_le_length (Nat.succ_le_of_lt hlen),
    List.drop_eq_getElem_cons hlen]
  simp [rangePages]

/-- At the end of a range the next one follows. -/
theorem PaList.drop_range (hr : r < list.n) : (list.pagesFrom r).drop (list.nPg r) = list.pagesFrom (r + 1) := by
  rw [pagesFrom_lt hr, ← rangePages_length list r, List.drop_left]

theorem PaList.pages_length (list : PaList) : list.pages.length = ∑ r ∈ Finset.range list.n, list.nPg r := by
  unfold pages
  induction list.n with
  | zero => rfl
  | succ m ih =>
    rw [List.range_succ, List.flatMap_append, List.length_append, ih, List.flatMap_singleton, rangePages_length,
      Finset.sum_range_succ]

theorem PaList.pages_aligned (list : PaList) (h : list.Aligned) {pa : Nat} (hpa : pa ∈ list.pages) : pa % pageSize4K = 0 := by
  obtain ⟨r, hr, hpa⟩ := List.mem_flatMap.1 hpa
  obtain ⟨k, hk, rfl⟩ := List.mem_map.1 hpa
  have hal := h r (List.mem_range.1 hr) (by have := List.mem_range.1 hk; omega)
  unfold u64 pageSize4K at *
  omega

/-- `pa_list_n_page` counts the pages, in 64 bits. -/
theorem paListNPage_eq (list : PaList) : paListNPage list = u64 list.pages.length := by
  have hloop : ∀ i, paListNPageLoop list i = u64 (∑ r ∈ Finset.range i, list.nPg r) := by
    intro i
    induction i with
    | zero => rfl
    | succ i ih =>
      rw [paListNPageLoop, ih, Finset.sum_range_succ]
      exact Nat.mod_add_mod _ _ _
  rw [paListNPage, hloop, list.pages_length]

end Pages

/-! ## The loop -/

/-- The loop of `_map_impl` over the pages to map, from page `i` of the addresses on. -/
def mapPages (im : MemImage) (root va : Nat) : Nat → List Nat → MemM Unit
  | _, [] => return ()
  | i, pa :: l => do
    mapPage im root (u64 (va + i * pageSize4K)) pa
    mapPages im root va (i + 1) l

/-- The loop with two cursors is the loop over the pages. -/
theorem mapImplLoop_eq {dbg : Bool} {im : MemImage} {root va nPg : Nat} {list : PaList} (hal : list.Aligned) :
    ∀ {k i r p : Nat}, i + ((list.pagesFrom r).drop p).length = nPg → p ≤ list.nPg r →
      ((list.pagesFrom r).drop p).length + (list.n - r) < k →
      mapImplLoop dbg im root va nPg list k i r p = mapPages im root va i ((list.pagesFrom r).drop p) := by
  intro k
  induction k with
  | zero =>
    intro i r p _ _ hk
    omega
  | succ k ih =>
    intro i r p hlen hp hk
    rw [mapImplLoop]
    by_cases hr : r < list.n
    · have hn : ∀ s, paListNRange dbg list s = .ok list.n s := by
        intro s
        unfold paListNRange
        rw [bind_ok (kernelAssertD_pos (by omega) dbg _ s)]
        rfl
      have hpg : ∀ s, paListRangeNPage dbg list r s = .ok (list.nPg r) s := by
        intro s
        unfold paListRangeNPage
        rw [bind_ok (kernelAssertD_pos hr dbg _ s)]
        rfl
      funext s
      by_cases hlt : p < list.nPg r
      · have hpa : paListRangePa dbg list r s = .ok (list.pa r) s := by
          have haligned : memAlignCheck (list.pa r) pageSize4K = true := decide_eq_true (hal r hr (by omega))
          unfold paListRangePa
          rw [bind_ok (kernelAssertD_pos hr dbg _ s), bind_ok (kernelAssertD_pos haligned dbg _ s)]
          rfl
        rw [PaList.drop_page hr hlt, List.length_cons] at hlen hk
        rw [if_pos (by omega), bind_ok (hn s), bind_ok (kernelAssertD_pos hr dbg _ s), bind_ok (hpg s), if_pos hlt, bind_ok hpa,
          ih (by omega) (by omega) (by omega), PaList.drop_page hr hlt, mapPages]
      · -- the range is used up, so the pages that are left are those of the next ranges
        obtain rfl : p = list.nPg r := by omega
        rw [PaList.drop_range hr] at hlen hk ⊢
        split
        · rw [bind_ok (hn s), bind_ok (kernelAssertD_pos hr dbg _ s), bind_ok (hpg s), if_neg hlt,
            ih (by rw [List.drop_zero]; exact hlen) (Nat.zero_le _) (by rw [List.drop_zero]; omega), List.drop_zero]
        · rw [List.eq_nil_of_length_eq_zero (by omega : (list.pagesFrom (r + 1)).length = 0)]
          rfl
    · rw [PaList.pagesFrom_ge (not_lt.1 hr), List.drop_nil] at hlen ⊢
      rw [if_neg (by simpa using hlen.ge)]
      rfl

/-! ## Mapping a list of pages -/

/-- The paths of the tables on the way of `n` pages from `va` on. -/
def paths (va n : Nat) : Finset (List (Fin 512)) :=
  (Finset.range n ×ˢ Finset.range 3).image fun x => Radix.path (key (va + x.1 * pageSize4K)) (x.2 + 1)

/-- No two of the `n` pages from `va` on are the same modulo 2^48. -/
def Apart (va n : Nat) : Prop :=
  ∀ i < n, ∀ j < n, SamePage (va + i * pageSize4K) (va + j * pageSize4K) → i = j

section Run

variable {im : MemImage} {s s' : MemState} {va : Nat}

theorem samePage_u64 (va : Nat) : SamePage (u64 va) va := by
  unfold SamePage u64 pageSize4K
  omega

theorem key_u64 (va : Nat) {d : Nat} (hd : d < 4) : key (u64 va) d = key va d := samePage_iff.1 (samePage_u64 va) d hd

theorem SamePage.refl (va : Nat) : SamePage va va := Eq.refl _

theorem SamePage.symm {va va' : Nat} (h : SamePage va va') : SamePage va' va := Eq.symm h

theorem SamePage.trans {va va' va'' : Nat} (h : SamePage va va') (h' : SamePage va' va'') : SamePage va va'' := Eq.trans h h'

theorem mem_paths {n i d : Nat} (hi : i < n) (hd : d < 3) :
    Radix.path (key (u64 (va + i * pageSize4K))) (d + 1) ∈ paths va n := by
  rw [Radix.path_congr fun e he => key_u64 _ (by omega)]
  exact Finset.mem_image.2 ⟨(i, d), Finset.mem_product.2 ⟨Finset.mem_range.2 hi, Finset.mem_range.2 hd⟩, rfl⟩

/-- What mapping the pages `l` from page `i` of `va` on leaves. -/
structure MappedPages (im : MemImage) (va i : Nat) (l : List Nat) (s s' : MemState) : Prop where
  tree : Tree im s'
  here : ∀ {j pa}, l[j]? = some pa → ∀ va', SamePage va' (va + (i + j) * pageSize4K) →
    lookup s'.mem im.tab4 va' = some ⟨hwPadd (pa + 3), true, false⟩
  other : ∀ va', (∀ j < l.length, ¬ SamePage va' (va + (i + j) * pageSize4K)) →
    lookup s'.mem im.tab4 va' = lookup s.mem im.tab4 va'
  fb : s'.fb = s.fb ∧ s'.fbLen = s.fbLen

theorem mapPages_run {n : Nat} (hva : va % pageSize4K = 0) (hapart : Apart va n) {P : Finset (List (Fin 512))}
    (hP : paths va n ⊆ P) : ∀ {l : List Nat} {i : Nat} {s : MemState}, i + l.length = n → Tree im s → (∀ pa ∈ l, Target pa) →
      (∀ j < l.length, lookup s.mem im.tab4 (va + (i + j) * pageSize4K) = none) → need im s P ≤ frameCapBootstrap →
      ∃ s', mapPages im im.tab4 va i l s = .ok () s' ∧ MappedPages im va i l s s' ∧ need im s' P = need im s P
  | [], i, s, _, h, _, _, _ => ⟨s, rfl, ⟨h, nofun, fun _ _ => rfl, rfl, rfl⟩, rfl⟩
  | pa :: l, i, s, hn, h, hl, hnone, hneed => by
    rw [List.length_cons] at hn hnone
    have hal : u64 (va + i * pageSize4K) % pageSize4K = 0 := by
      unfold u64 pageSize4K at *
      omega
    have hnone₀ : lookup s.mem im.tab4 (u64 (va + i * pageSize4K)) = none :=
      (lookup_samePage (samePage_u64 _)).trans (hnone 0 (by omega))
    have hpath : ∀ d < 3, Radix.path (key (u64 (va + i * pageSize4K))) (d + 1) ∈ P := fun d hd => hP (mem_paths (by omega) hd)
    obtain ⟨s₁, hrun, hm⟩ := mapPage_run h hal (hl pa (List.mem_cons_self ..)) hnone₀ hpath hneed
    -- the page just mapped is none of those that follow
    have hne : ∀ j < l.length, ¬ SamePage (va + (i + 1 + j) * pageSize4K) (u64 (va + i * pageSize4K)) := by
      intro j hj hsame
      have := hapart (i + 1 + j) (by omega) i (by omega) (SamePage.trans hsame (samePage_u64 _))
      omega
    have hnone₁ : ∀ j < l.length, lookup s₁.mem im.tab4 (va + (i + 1 + j) * pageSize4K) = none := by
      intro j hj
      rw [hm.other _ (hne j hj), show i + 1 + j = i + (j + 1) by omega]
      exact hnone (j + 1) (by omega)
    obtain ⟨s₂, hrun₂, hm₂, hneed₂⟩ := mapPages_run (l := l) (i := i + 1) (s := s₁) hva hapart hP (by omega) hm.tree
      (fun pa hpa => hl pa (List.mem_cons_of_mem _ hpa)) hnone₁ (by rw [hm.need P hpath]; exact hneed)
    refine ⟨s₂, ?_, ⟨hm₂.tree, fun {j pa'} hj va' hva' => ?_, fun va' hva' => ?_, ?_⟩, hneed₂.trans (hm.need P hpath)⟩
    · rw [mapPages, bind_ok hrun]
      exact hrun₂
    · cases j with
      | zero =>
        obtain rfl : pa = pa' := by simpa using hj
        have hsame : SamePage va' (u64 (va + i * pageSize4K)) := SamePage.trans hva' (SamePage.symm (samePage_u64 _))
        rw [hm₂.other va' fun j hj hj' => hne j hj (SamePage.trans (SamePage.symm hj') hsame)]
        exact hm.here va' hsame
      | succ j =>
        refine hm₂.here (j := j) (by simpa using hj) va' ?_
        rw [show i + 1 + j = i + (j + 1) by omega]
        exact hva'
    · have hlater : ∀ j < l.length, ¬ SamePage va' (va + (i + 1 + j) * pageSize4K) := by
        intro j hj
        rw [show i + 1 + j = i + (j + 1) by omega]
        exact hva' (j + 1) (by rw [List.length_cons]; omega)
      rw [hm₂.other va' hlater]
      exact hm.other va' fun hsame => hva' 0 (by rw [List.length_cons]; omega) (SamePage.trans hsame (samePage_u64 _))
    · exact ⟨hm₂.fb.1.trans hm.fb.1, hm₂.fb.2.trans hm.fb.2⟩

/-- There are 2^36 pages modulo 2^48. -/
theorem Apart.le {n : Nat} (h : Apart va n) : n ≤ 2 ^ 36 := by
  by_contra hlt
  have hsame : SamePage (va + 0 * pageSize4K) (va + 2 ^ 36 * pageSize4K) := by
    unfold SamePage pageSize4K
    omega
  have := h 0 (by omega) (2 ^ 36) (by omega) hsame
  omega

/-! ## _map_impl -/

variable {dbg : Bool} {list : PaList} {k n : Nat}

theorem mapImpl_run (dbg : Bool) (h : Tree im s) (hva : va % pageSize4K = 0) (hal : list.Aligned) (hn : list.pages.length = n)
    (hapart : Apart va n) {P : Finset (List (Fin 512))} (hP : paths va n ⊆ P) (htarget : ∀ pa ∈ list.pages, Target pa)
    (hnone : ∀ i < n, lookup s.mem im.tab4 (va + i * pageSize4K) = none) (hneed : need im s P ≤ frameCapBootstrap)
    (hk : n + list.n < k) :
    ∃ s', mapImpl dbg im k im.tab4 va n list s = .ok () s' ∧ MappedPages im va 0 list.pages s s' ∧ need im s' P = need im s P := by
  have hle := hapart.le
  have hcount : n = paListNPage list := by rw [paListNPage_eq, hn, u64_of_lt (by omega)]
  have hcheck : memAlignCheck va pageSize4K = true := decide_eq_true hva
  obtain ⟨s', hrun, hm, hsame⟩ := mapPages_run (l := list.pages) (i := 0) hva hapart hP (by omega) h htarget
    (fun j hj => by rw [Nat.zero_add]; exact hnone j (by omega)) hneed
  refine ⟨s', ?_, hm, hsame⟩
  unfold mapImpl
  rw [bind_ok (kernelAssert_pos hcheck _ s), bind_ok (kernelAssertD_pos hcount dbg _ s)]
  have hloop : mapImplLoop dbg im im.tab4 va n list k 0 0 0 = mapPages im im.tab4 va 0 ((list.pagesFrom 0).drop 0) := by
    refine mapImplLoop_eq hal ?_ (Nat.zero_le _) ?_ <;> rw [List.drop_zero, list.pagesFrom_zero] <;> omega
  rw [hloop, List.drop_zero, list.pagesFrom_zero]
  exact hrun

/-- Whatever its arguments, `_map_impl` keeps the tree. -/
theorem mapImplLoop_tree : ∀ {k i r p : Nat} {s : MemState}, Tree im s →
    mapImplLoop dbg im im.tab4 va n list k i r p s = .ok () s' → Tree im s' := by
  intro k
  induction k with
  | zero =>
    intro i r p s h hrun
    cases hrun
  | succ k ih =>
    intro i r p s h hrun
    rw [mapImplLoop] at hrun
    split at hrun
    · obtain ⟨nRange, s₁, h1, hrun⟩ := bind_eq_ok.1 hrun
      have hrun := kernelAssertD_bind hrun
      obtain ⟨m, s₂, h2, hrun⟩ := bind_eq_ok.1 hrun
      cases kernelAssertD_bind h1
      cases kernelAssertD_bind h2
      split at hrun
      · obtain ⟨rangePa, s₃, h3, hrun⟩ := bind_eq_ok.1 hrun
        cases kernelAssertD_bind (kernelAssertD_bind h3)
        obtain ⟨_, s₄, hpage, hrun⟩ := bind_eq_ok.1 hrun
        exact ih (mapPage_ok h hpage).2.2.tree hrun
      · exact ih h hrun
    · cases hrun
      exact h

theorem mapImpl_tree (h : Tree im s) (hrun : mapImpl dbg im k im.tab4 va n list s = .ok () s') : Tree im s' := by
  unfold mapImpl at hrun
  obtain ⟨_, s₁, h1, hrun⟩ := bind_eq_ok.1 hrun
  rw [(kernelAssert_ok h1).2] at hrun
  exact mapImplLoop_tree h (kernelAssertD_bind hrun)

/-- Without entries the root is a tree by itself, and no page has a translation. -/
theorem Tree.zeroed (hc : s.frameCountBootstrap ≤ frameCapBootstrap) (hstage : s.bootStage < memBootstrapStageFinish)
    (hrun : Mem.tabZero im.tab4 s = .ok () s') :
    Tree im s' ∧ (∀ {q t}, tableAt im s'.mem q = some t → q = []) ∧ ∀ va, lookup s'.mem im.tab4 va = none := by
  obtain ⟨h1, h2, h3⟩ := im.tab4_placed
  have hz : ∀ i : Fin 512, s'.mem (im.tab4 + tabEntryLen * i) = 0 := by
    intro i
    have hi := i.isLt
    cases hrun
    exact if_pos (by unfold tabEntryLen tabEntryCount; omega)
  have hsame : s'.frameCountBootstrap = s.frameCountBootstrap ∧ s'.bootStage = s.bootStage := by
    cases hrun
    exact ⟨rfl, rfl⟩
  have hlow : LowFrame im.tab4 := by
    unfold pageSize4K at h3
    exact ⟨⟨h1, by omega⟩, h2⟩
  obtain ⟨htab, hnode⟩ := Tables.root (m := s'.mem) (show LowFrame (view im im.tab4 h1).tab4 from hlow) hz
  refine ⟨⟨htab.inj, fun hq hne => absurd (hnode hq).1 hne, fun hq i => ?_, hsame.1.trans_le hc, hsame.2.trans_lt hstage⟩,
    fun hq => (hnode hq).1, fun va => ?_⟩
  · rw [(hnode hq).2]
    exact .inl (hz i)
  · refine Option.eq_none_iff_forall_ne_some.2 fun l hl => ?_
    obtain ⟨d, -, t, ht, hdec⟩ := Radix.walk_eq_some.1 hl
    obtain rfl : t = im.tab4 := (hnode ht).2
    unfold entries at hdec
    rw [hz, decode_zero] at hdec
    cases hdec

/-- A tree built from the zeroed root by calls of `_map_impl`. -/
inductive Built (dbg : Bool) (im : MemImage) : MemState → Prop
  | zeroed {s s' : MemState} : s.frameCountBootstrap ≤ frameCapBootstrap → s.bootStage < memBootstrapStageFinish →
      Mem.tabZero im.tab4 s = .ok () s' → Built dbg im s'
  | map {s s' : MemState} {k va n : Nat} {list : PaList} : Built dbg im s →
      mapImpl dbg im k im.tab4 va n list s = .ok () s' → Built dbg im s'

theorem Built.tree (h : Built dbg im s) : Tree im s := by
  induction h with
  | zeroed hc hstage hrun => exact (Tree.zeroed hc hstage hrun).1
  | map _ hrun ih => exact mapImpl_tree ih hrun

/-- Three tables a page are enough. -/
theorem card_paths_le (va n : Nat) : (paths va n).card ≤ n * 3 := by
  refine Finset.card_image_le.trans ?_
  rw [Finset.card_product, Finset.card_range, Finset.card_range]

theorem need_le (im : MemImage) (s : MemState) (P : Finset (List (Fin 512))) : need im s P ≤ s.frameCountBootstrap + P.card :=
  Nat.add_le_add_left (Finset.card_filter_le _ _) _

end Run

/-- `_map_impl` maps its pages to those of the list, in order, and changes no other page. -/
theorem map_impl_exact (dbg : Bool) (im : MemImage) (s : MemState) (k va n : Nat) (list : PaList) (hs : Built dbg im s)
    (hva : va % pageSize4K = 0) (hal : list.Aligned) (hn : ∑ r ∈ Finset.range list.n, list.nPg r = n)
    (hapart : Apart va n) (hnone : ∀ i < n, lookup s.mem im.tab4 (va + i * pageSize4K) = none)
    (hlow : ∀ pa ∈ list.pages, pa ≤ va48LowEnd) (hframes : need im s (paths va n) ≤ frameCapBootstrap) (hk : n + list.n < k) :
    ∃ s', mapImpl dbg im k im.tab4 va n list s = .ok () s' ∧ list.pages.length = n ∧
      (∀ i pa, list.pages[i]? = some pa → lookup s'.mem im.tab4 (va + i * pageSize4K) = some ⟨pa, true, false⟩) ∧
      ∀ va', (∀ i < n, ¬ SamePage va' (va + i * pageSize4K)) → lookup s'.mem im.tab4 va' = lookup s.mem im.tab4 va' := by
  rw [← list.pages_length] at hn
  have hpage : ∀ pa ∈ list.pages, IsPage pa := fun pa hpa => ⟨list.pages_aligned hal hpa, hlow pa hpa⟩
  obtain ⟨s', hrun, hm, -⟩ := mapImpl_run dbg hs.tree hva hal hn hapart (Finset.Subset.refl _)
    (fun pa hpa => IsPage.target (hpage pa hpa)) hnone hframes hk
  refine ⟨s', hrun, hn, fun i pa hi => ?_, fun va' hva' => hm.other va' fun j hj => ?_⟩
  · have hl := hm.here hi (va + i * pageSize4K) (by rw [Nat.zero_add]; rfl)
    rw [(present_value (hpage pa (List.mem_of_getElem? hi))).2.2.2] at hl
    exact hl
  · rw [Nat.zero_add]
    exact hva' j (by omega)

/-- Two pages, a range without pages, and one more page. -/
def paList₀ : PaList where
  n := 3
  pa := fun r => if r = 0 then 0x600000 else if r = 1 then 0x1234 else 0x900000
  nPg := fun r => if r = 0 then 2 else if r = 1 then 0 else 1

/-- The state once `_tab_4` is zeroed. -/
def zeroed₀ : MemState :=
  { memState₀ with
    mem := fun x => if memImage₀.tab4 ≤ x ∧ x < memImage₀.tab4 + tabEntryLen * tabEntryCount then 0 else 0 }

/-- Three pages on both sides of a 2M boundary. -/
theorem map_impl_exact_paList₀ :
    ∃ s', mapImpl true memImage₀ 7 memImage₀.tab4 0x7fe000 3 paList₀ zeroed₀ = .ok () s' ∧ paList₀.pages.length = 3 ∧
      (∀ i pa, paList₀.pages[i]? = some pa → lookup s'.mem memImage₀.tab4 (0x7fe000 + i * pageSize4K) = some ⟨pa, true, false⟩) ∧
      ∀ va', (∀ i < 3, ¬ SamePage va' (0x7fe000 + i * pageSize4K)) →
        lookup s'.mem memImage₀.tab4 va' = lookup zeroed₀.mem memImage₀.tab4 va' := by
  have hzero : Mem.tabZero memImage₀.tab4 memState₀ = .ok () zeroed₀ := rfl
  have hapart : Apart 0x7fe000 3 := by
    intro i hi j hj hsame
    unfold SamePage pageSize4K at hsame
    omega
  refine map_impl_exact true memImage₀ zeroed₀ 7 0x7fe000 3 paList₀ (.zeroed (by decide) (by decide) hzero) (by decide) ?_ rfl
    hapart (fun i _ => (Tree.zeroed (by decide) (by decide) hzero).2.2 _) (by decide) ?_ (by decide)
  · intro r hr
    have hr : r < 3 := hr
    interval_cases r <;> decide
  · exact (need_le memImage₀ zeroed₀ _).trans ((Nat.add_le_add_left (card_paths_le 0x7fe000 3) _).trans (by decide))

end Cing.Mem
