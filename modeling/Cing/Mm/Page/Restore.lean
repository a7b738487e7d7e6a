/-
Mapping a list of pages and unmapping them in any order. `_unmap` frees a table when its last entry
goes, so each table that was there before keeps an entry until the end, and each table that was not is
gone with the last page below it. Both follow from one fact: where no table is empty, a table is there
exactly as long as there is a translation below it.
-/
import Cing.Mm.Page.Owner

namespace Cing.Page

open Linked

variable {im : Image} {s₀ s s' : PageState} {F : List Nat} {t va pa : Nat} {q : List (Fin 512)}

/-! ## The calls -/

/-- Maps each page to a frame from `mm_frame_alloc`; false if a call fails. -/
def mapEach (im : Image) : List Nat → PageM Bool
  | [] => return true
  | va :: vas => do
    match ← mmFrameAlloc im with
    | none => return false
    | some framePa =>
      let ok ← mmPageMap im va framePa
      if ok then mapEach im vas else return false

/-- Unmaps each page and frees its frame. -/
def unmapEach (im : Image) : List Nat → PageM Unit
  | [] => return ()
  | va :: vas => do
    let _ ← unmap im va pageSize4K true
    unmapEach im vas

/-! ## Tables and translations -/

/-- Every four indices are those of an address. -/
theorem exists_va (k : Nat → Fin 512) : ∃ va, ∀ d < 4, key va d = k d := by
  have h0 := (k 0).isLt
  have h1 := (k 1).isLt
  have h2 := (k 2).isLt
  have h3 := (k 3).isLt
  refine ⟨(((k 0 : Nat) * 512 + k 1) * 512 + k 2) * 512 * 4096 + k 3 * 4096, fun d hd => Fin.ext ?_⟩
  rw [key_val hd]
  interval_cases d <;> norm_num <;> omega

/-- Where no table is empty, there is a translation below each table that is not on the way of the window. -/
theorem Inv.lookup_below (h : Inv im s F) (hne : NoEmpty im s.mem) (hq : node im s.mem q = some t) (hs : ¬ Static q) :
    ∃ va l, Radix.path (key va) q.length = q ∧ q.length ≤ l.depth ∧ lookup s.mem im.tab4 va = some l := by
  have hstep : ∀ p t, node im s.mem p = some t → ¬ Static p → ∃ i : Fin 512, entries s.mem p.length t i ≠ .absent ∧
      ∀ c, entries s.mem p.length t i = .table c → ¬ Static (i :: p) := by
    intro p t hp hs
    obtain ⟨i, hi⟩ := hne p t hp hs
    refine ⟨i, fun he => hi ((h.tree.entry hp i).absent_iff.1 he), fun _ _ hsi => hs ((List.suffix_cons i p).trans hsi)⟩
  obtain ⟨k, d, t', l, hk, hle, hd, ht', hl⟩ := Radix.exists_leaf_below 0 (fun p t hp => h.tree.length_lt hp) hstep hq hs
  obtain ⟨va, hva⟩ := exists_va k
  have hpath : ∀ e ≤ 4, Radix.path (key va) e = Radix.path k e := fun e he => Radix.path_congr fun d hd => hva d (by omega)
  have hl' : lookup s.mem im.tab4 va = some l :=
    Radix.walk_eq_some.2 ⟨d, hd, t', by rw [hpath d (by omega)]; exact ht', by rw [hva d hd]; exact hl⟩
  refine ⟨va, l, by rw [hpath _ (by omega), hk], ?_, hl'⟩
  -- the leaf lies as deep as its size says
  obtain ⟨t'', ht'', hdec, -⟩ := h.tree.leaf_spec hl'
  have hdepth := l.depth_cases
  rw [hpath _ (by omega)] at ht''
  rw [hva _ (by omega)] at hdec
  exact hle.trans (Radix.depth_le_of_leaf ht'' hdec ht')

/-- The tables on the way of a translation. -/
theorem Inv.node_of_lookup (h : Inv im s F) {l : Leaf} (hl : lookup s.mem im.tab4 va = some l) {n : Nat} (hn : n ≤ l.depth) :
    ∃ t, node im s.mem (Radix.path (key va) n) = some t := by
  obtain ⟨t, ht, -⟩ := h.tree.leaf_spec hl
  exact Radix.node_suffix (Radix.path_suffix _ hn) ht

theorem Inv.node_static (h : Inv im s F) (hs : Static q) : ∃ t, node im s.mem q = some t :=
  Radix.node_suffix hs h.tree.direct.node.2.2

/-- A table is still there in a state with the translations of pages that had one. -/
theorem Inv.node_of_keeps {F' : List Nat} (h : Inv im s F) (hne : NoEmpty im s.mem) (h' : Inv im s' F')
    (hkeep : ∀ va l, lookup s.mem im.tab4 va = some l → lookup s'.mem im.tab4 va = some l) (hq : node im s.mem q = some t) :
    ∃ t', node im s'.mem q = some t' := by
  by_cases hs : Static q
  · exact h'.node_static hs
  · obtain ⟨va, l, hpath, hle, hl⟩ := h.lookup_below hne hq hs
    rw [← hpath]
    exact h'.node_of_lookup (hkeep va l hl) hle

/-! ## A machine with many frames -/

/-- At the start of `image₀` only the tables of the window are there. -/
theorem static_table (h : Inv image₀ s F) (hne : NoEmpty image₀ s.mem) (hnone : ∀ va, lookup s.mem image₀.tab4 va = none)
    (hq : node image₀ s.mem q = some t) : Static q ∧ t < 0x400000 := by
  have hs : Static q := by
    by_contra hs
    obtain ⟨va, l, -, -, hl⟩ := h.lookup_below hne hq hs
    rw [hnone va] at hl
    cases hl
  refine ⟨hs, ?_⟩
  obtain ⟨h1, h2, h3⟩ := h.tree.direct.node
  have htab : ∀ {x : Nat}, node image₀ s.mem q = some x → x < 0x400000 → t < 0x400000 := by
    intro x hx hlt
    obtain rfl : x = t := Option.some.inj (hx.symm.trans hq)
    exact hlt
  rcases List.suffix_cons_iff.1 hs with rfl | hs
  · exact htab h3 (by decide)
  rcases List.suffix_cons_iff.1 hs with rfl | hs
  · exact htab h2 (by decide)
  rcases List.suffix_cons_iff.1 hs with rfl | hs
  · exact htab h1 (by decide)
  · obtain rfl := List.suffix_nil.1 hs
    exact htab rfl (by decide)

/-- Frames that are in use nowhere can be put on the list, here those from `0x406000` on. -/
theorem exists_many : ∀ n ≤ 2 ^ 20, ∃ s F, Reach image₀ s ∧ Inv image₀ s F ∧ F.length = n + 6 ∧
    (∀ f ∈ F, IsPage f ∧ f < 0x406000 + 4096 * n) ∧ (∀ q t, node image₀ s.mem q = some t → Static q ∧ t < 0x400000) ∧
    ∀ va, lookup s.mem image₀.tab4 va = none
  | 0, _ => by
    obtain ⟨s, -, hstart, hinv, hnone, hne⟩ := exists_start
    refine ⟨s, frames₀, .start hstart, hinv, rfl, fun f hf => ⟨(frames₀_spec f hf).1.1, ?_⟩,
      fun q t => static_table hinv hne hnone, hnone⟩
    have : ∀ f ∈ frames₀, f < 0x406000 + 4096 * 0 := by decide
    exact this f hf
  | n + 1, hn => by
    obtain ⟨s, F, h, hinv, hlen, hF, htab, hnone⟩ := exists_many n (by omega)
    have hpage : IsPage (0x406000 + 4096 * n) := by unfold IsPage pageSize4K va48LowEnd; omega
    have hu : Unused image₀ s F (0x406000 + 4096 * n) := by
      refine ⟨⟨hpage.1, by omega, by omega⟩, fun hm => ?_, fun q hq => ?_⟩
      · have := (hF _ hm).2
        omega
      · have := (htab q _ hq).2
        omega
    have huse : NotInUse image₀ s (0x406000 + 4096 * n) :=
      ⟨hu.frame, fun hm => hu.notFree (hinv.onFreeList.1 hm), fun ⟨q, hq⟩ => hu.notTable q hq⟩
    obtain ⟨hpush, hnode, hlook⟩ := hinv.push hu
    refine ⟨_, _, .freeWindow h huse (returnFrame_run hinv hu hpage), hpush, by rw [List.length_cons, hlen], fun f hf => ?_,
      fun q t hq => htab q t ((hnode q).symm.trans hq), fun va => (hlook va).trans (hnone va)⟩
    rcases List.mem_cons.1 hf with rfl | hf
    · exact ⟨hpage, by omega⟩
    · have := hF f hf
      exact ⟨this.1, by omega⟩

/-! ## What is kept -/

/-- The tables of the state before are there, and no table is empty. -/
structure Restorable (im : Image) (s₀ s : PageState) : Prop where
  noEmpty : NoEmpty im s.mem
  old : ∀ {q t}, node im s₀.mem q = some t → node im s.mem q = some t

theorem Mapped.noEmpty {N : List Nat} (h : Mapped im va pa s s' N) (hne : NoEmpty im s.mem) : NoEmpty im s'.mem := by
  intro q t ht hs
  rcases h.new ht with hold | hN
  · obtain ⟨i, hi⟩ := hne q t hold hs
    exact ⟨i, h.kept hold i hi⟩
  · exact h.filled ht hN

/-- The translations of the state before are still there. -/
theorem Kept.keeps {o : Owner} (h : Kept im s₀ s o F) {l : Leaf} (hl : lookup s₀.mem im.tab4 va = some l) :
    lookup s.mem im.tab4 va = some l := by
  rw [h.elsewhere va fun e he hs => ?_]
  · exact hl
  · rw [lookup_samePage hs, (h.page e he).fresh] at hl
    cases hl

theorem Restorable.unmap {o : Owner} {F₀ R : List Nat} {d : Nat} (h : Restorable im s₀ s) (h₀ : Inv im s₀ F₀)
    (hne : NoEmpty im s₀.mem) (hk : Kept im s₀ s' o F) (hun : Unmapped im va d s s' R) : Restorable im s₀ s' := by
  refine ⟨hun.noEmpty h.noEmpty, fun {q t} hq => ?_⟩
  obtain ⟨t', ht'⟩ := h₀.node_of_keeps hne hk.inv (fun va l hl => hk.keeps hl) hq
  obtain rfl : t = t' := Option.some.inj ((h.old hq).symm.trans (hun.node.1 ht').1)
  exact ht'

/-- Once the owner has nothing left, everything is as it was. -/
theorem Restorable.tables {F₀ : List Nat} (h : Restorable im s₀ s) (h₀ : Inv im s₀ F₀) (hk : Kept im s₀ s ⟨[], []⟩ F) :
    IsTable im s t ↔ IsTable im s₀ t := by
  constructor
  · rintro ⟨q, hq⟩
    obtain ⟨t', ht'⟩ := hk.inv.node_of_keeps h.noEmpty h₀ (fun va l hl => (hk.elsewhere va nofun).symm.trans hl) hq
    obtain rfl : t = t' := Option.some.inj (hq.symm.trans (h.old ht'))
    exact ⟨q, ht'⟩
  · rintro ⟨q, hq⟩
    exact ⟨q, h.old hq⟩

theorem Restorable.free {F₀ : List Nat} (h : Restorable im s₀ s) (h₀ : Inv im s₀ F₀) (hk : Kept im s₀ s ⟨[], []⟩ F)
    {f : Nat} : f ∈ F ↔ f ∈ F₀ := by
  have hall := hk.all f
  rw [h₀.onFreeList, ← h.tables h₀ hk] at hall
  have hno : f ∉ Owner.frames ⟨[], []⟩ := List.not_mem_nil
  have hnot : f ∈ F → ¬ IsTable im s f := fun hf ⟨q, hq⟩ => hk.inv.notTable f hf q hq
  have hnot₀ : f ∈ F₀ → ¬ IsTable im s f := fun hf ht =>
    ((h.tables h₀ hk).1 ht).elim fun q hq => h₀.notTable f hf q hq
  tauto

/-! ## Lists of pages -/

/-- A page that can be mapped. -/
structure Mappable (im : Image) (s : PageState) (va : Nat) : Prop where
  align : va % 4096 = 0
  lt : va < 2 ^ 64
  none : lookup s.mem im.tab4 va = none
  notWindow : ¬ SamePage va directVadd

/-- With four frames for each page, all calls succeed. -/
theorem mapEach_true : ∀ {vas : List Nat} {s : PageState} {F : List Nat}, Inv im s F → (∀ x ∈ F, IsPage x) →
    (∀ va ∈ vas, Mappable im s va) → vas.Pairwise (¬ SamePage · ·) → 4 * vas.length < F.length →
    ∃ s₁, mapEach im vas s = .ok true s₁
  | [], s, _, _, _, _, _, _ => ⟨s, rfl⟩
  | _ :: _, _, [], _, _, _, _, hlen => absurd hlen (Nat.not_lt_zero _)
  | va :: vas, s, f :: F, h, hpage, hvas, hdist, hlen => by
    rw [List.length_cons, List.length_cons] at hlen
    obtain ⟨hal, -, hnone, hva⟩ := hvas va (List.mem_cons_self ..)
    obtain ⟨hd, hdist⟩ := List.pairwise_cons.1 hdist
    have hrest : ∀ x ∈ F, IsPage x := fun x hx => hpage x (List.mem_cons_of_mem _ hx)
    have halloc := mmFrameAlloc_cons h (hpage f (List.mem_cons_self ..))
    obtain ⟨s', F', N, hmap, h', hF, hN, hm⟩ :=
      mmPageMap_true h.pop.1 hal hva hnone (hpage f (List.mem_cons_self ..)) hrest (by omega)
    have hcount := congrArg List.length hF
    rw [List.length_append] at hcount
    obtain ⟨s₁, hrun⟩ := mapEach_true h' (fun x hx => hrest x (hF ▸ List.mem_append_right N hx)) (fun va' hva' => by
      obtain ⟨h1, h2, h3, h4⟩ := hvas va' (List.mem_cons_of_mem _ hva')
      exact ⟨h1, h2, (hm.elsewhere va' fun hs => hd va' hva' hs.symm).trans h3, h4⟩) hdist (by omega)
    refine ⟨s₁, ?_⟩
    rw [mapEach, Exec.bind_ok halloc]
    show (mmPageMap im va f >>= fun ok => _) (popFrame s) = _
    rw [Exec.bind_ok hmap]
    exact hrun

theorem mapEach_kept : ∀ {vas : List Nat} {s s₁ : PageState} {M : List (Nat × Nat)} {F : List Nat},
    Kept im s₀ s ⟨[], M⟩ F → Restorable im s₀ s → (∀ va ∈ vas, Mappable im s va) → vas.Pairwise (¬ SamePage · ·) →
    mapEach im vas s = .ok true s₁ →
    ∃ M' F', Kept im s₀ s₁ ⟨[], M'⟩ F' ∧ Restorable im s₀ s₁ ∧ (M'.map Prod.fst).Perm (vas ++ M.map Prod.fst)
  | [], s, s₁, M, F, hk, hr, _, _, hrun => by
    cases hrun
    exact ⟨M, F, hk, hr, .refl _⟩
  | va :: vas, s, s₁, M, F, hk, hr, hvas, hdist, hrun => by
    obtain ⟨r, s₂, halloc, hrun⟩ := Exec.bind_eq_ok.1 hrun
    cases F with
    | nil =>
      rw [mmFrameAlloc_nil hk.inv] at halloc
      cases halloc
      cases hrun
    | cons f F =>
      have hpage := mmFrameAlloc_page hk.inv halloc
      have halloc' := mmFrameAlloc_cons hk.inv hpage
      rw [halloc'] at halloc
      cases halloc
      obtain ⟨ok, s₃, hmap, hrun⟩ := Exec.bind_eq_ok.1 hrun
      cases ok with
      | false => cases hrun
      | true =>
        obtain ⟨hal, h64, hnone, hva⟩ := hvas va (List.mem_cons_self ..)
        obtain ⟨F₂, hk₂⟩ := hk.alloc halloc'
        obtain ⟨F₃, hk₃⟩ := hk₂.map (List.mem_cons_self ..) hpage.2 hal h64 hnone hva hmap
        rw [List.erase_cons_head] at hk₃
        obtain ⟨-, N, -, -, -, hok⟩ := mmPageMap_ok hk₂.inv hal hva hnone hpage hmap
        have hm := hok rfl
        have hr₃ : Restorable im s₀ s₃ := ⟨hm.noEmpty hr.noEmpty, fun hq => hm.old (hr.old hq)⟩
        obtain ⟨hd, hdist⟩ := List.pairwise_cons.1 hdist
        obtain ⟨M', F', hk', hr', hperm⟩ := mapEach_kept hk₃ hr₃ (fun va' hva' => by
          obtain ⟨h1, h2, h3, h4⟩ := hvas va' (List.mem_cons_of_mem _ hva')
          exact ⟨h1, h2, (hm.elsewhere va' fun hs => hd va' hva' hs.symm).trans h3, h4⟩) hdist hrun
        exact ⟨M', F', hk', hr', hperm.trans List.perm_middle⟩

/-- Unmapping some of the pages, in any order, leaves the others. -/
theorem unmapEach_kept {F₀ : List Nat} (h₀ : Inv im s₀ F₀) (hne : NoEmpty im s₀.mem) : ∀ {vas rest : List Nat} {s : PageState}
    {M : List (Nat × Nat)} {F : List Nat}, Kept im s₀ s ⟨[], M⟩ F → Restorable im s₀ s → (vas ++ rest).Perm (M.map Prod.fst) →
    ∃ s₂ M' F', unmapEach im vas s = .ok () s₂ ∧ Kept im s₀ s₂ ⟨[], M'⟩ F' ∧ Restorable im s₀ s₂ ∧ rest.Perm (M'.map Prod.fst)
  | [], rest, s, M, F, hk, hr, hperm => ⟨s, M, F, rfl, hk, hr, hperm⟩
  | va :: vas, rest, s, M, F, hk, hr, hperm => by
    obtain ⟨⟨va', pa⟩, he, hfst⟩ := List.mem_map.1 (hperm.mem_iff.1 (List.mem_cons_self ..))
    obtain rfl : va' = va := hfst
    have hpa : pa ∈ Owner.frames ⟨[], M⟩ := List.mem_map.2 ⟨_, he, rfl⟩
    obtain ⟨hal, h64, -, hl⟩ := hk.page _ he
    obtain ⟨s₁, R, hrun, -, hun⟩ := unmap4K_run hk.inv hl rfl hal h64 (hk.unused pa hpa)
    obtain ⟨F₁, hk₁⟩ := hk.unmap he hrun
    have hperm₁ : (vas ++ rest).Perm ((M.erase (va', pa)).map Prod.fst) :=
      (hperm.trans ((List.perm_cons_erase he).map Prod.fst)).cons_inv
    obtain ⟨s₂, M', F', hrun', hk', hr', hperm'⟩ := unmapEach_kept h₀ hne hk₁ (hr.unmap h₀ hne hk₁ hun) hperm₁
    refine ⟨s₂, M', F', ?_, hk', hr', hperm'⟩
    rw [unmapEach, Exec.bind_ok hrun]
    exact hrun'

/-- Mapping pages to fresh frames and unmapping them in any order restores the translations, the tables, the free
list and its count; on the way neither `_tab_4` nor a table of the window is freed. -/
theorem map_unmap_restores {s₁ : PageState} {vas vas' : List Nat} (h : Reach im s) (hne : NoEmpty im s.mem)
    (hvas : ∀ va ∈ vas, Mappable im s va) (hdist : vas.Pairwise (¬ SamePage · ·)) (hmap : mapEach im vas s = .ok true s₁)
    (hperm : vas'.Perm vas) :
    (∃ s₂, unmapEach im vas' s₁ = .ok () s₂ ∧ (∀ va, lookup s₂.mem im.tab4 va = lookup s.mem im.tab4 va) ∧
      (∀ t, IsTable im s₂ t ↔ IsTable im s t) ∧ (∀ f, OnFreeList s₂ f ↔ OnFreeList s f) ∧
      mmFrameFreeCount s₂ = mmFrameFreeCount s) ∧
    ∀ n, ∃ s₂, unmapEach im (vas'.take n) s₁ = .ok () s₂ ∧ ¬ OnFreeList s₂ im.tab4 ∧
      ∀ i < 3, ¬ OnFreeList s₂ (directTab im i) := by
  obtain ⟨F₀, h₀⟩ := h.inv
  obtain ⟨M, F, hk, hr, hM⟩ := mapEach_kept h₀.kept ⟨hne, id⟩ hvas hdist hmap
  rw [List.map_nil, List.append_nil] at hM
  have hperm' : vas'.Perm (M.map Prod.fst) := hperm.trans hM.symm
  constructor
  · have hall : (vas' ++ []).Perm (M.map Prod.fst) := by rw [List.append_nil]; exact hperm'
    obtain ⟨s₂, M', F', hrun, hk', hr', hnil⟩ := unmapEach_kept h₀ hne hk hr hall
    obtain rfl : M' = [] := List.map_eq_nil_iff.1 hnil.nil_eq.symm
    have hfree : ∀ f, f ∈ F' ↔ f ∈ F₀ := fun f => hr'.free h₀ hk'
    refine ⟨s₂, hrun, fun va => hk'.elsewhere va nofun, fun t => hr'.tables h₀ hk', fun f => ?_, ?_⟩
    · rw [hk'.inv.onFreeList, h₀.onFreeList, hfree]
    · show s₂.freeCount = s.freeCount
      rw [hk'.inv.count, h₀.count]
      exact ((List.perm_ext_iff_of_nodup hk'.inv.nodup h₀.nodup).2 hfree).length_eq
  · intro n
    have hsplit : (vas'.take n ++ vas'.drop n).Perm (M.map Prod.fst) := by rw [List.take_append_drop]; exact hperm'
    obtain ⟨s₂, M', F', hrun, hk', -⟩ := unmapEach_kept h₀ hne hk hr hsplit
    obtain ⟨h2, h1, h0⟩ := hk'.inv.tree.direct.node
    refine ⟨s₂, hrun, fun hf => hk'.inv.notTable _ (hk'.inv.onFreeList.1 hf) [] rfl, fun i hi hf => ?_⟩
    have hnot := hk'.inv.notTable _ (hk'.inv.onFreeList.1 hf)
    interval_cases i
    · exact hnot _ h0
    · exact hnot _ h1
    · exact hnot _ h2

/-- Three pages, two of them in one table of the last level, which are unmapped in another order. -/
theorem map_unmap_restores_three : ∃ s s₁ s₂, Reach image₀ s ∧ mapEach image₀ [0, 0x1000, 0x200000] s = .ok true s₁ ∧
    unmapEach image₀ [0x200000, 0, 0x1000] s₁ = .ok () s₂ ∧ (∀ va, lookup s₂.mem image₀.tab4 va = none) ∧
    mmFrameFreeCount s₂ = mmFrameFreeCount s := by
  obtain ⟨s, F, hreach, hinv, hlen, hF, htab, hnone⟩ := exists_many 16 (by norm_num)
  have hvas : ∀ va ∈ [0, 0x1000, 0x200000], Mappable image₀ s va := by
    have hall : ∀ va ∈ [0, 0x1000, 0x200000], va % 4096 = 0 ∧ va < 2 ^ 64 ∧ ¬ SamePage va directVadd := by decide
    exact fun va hva => ⟨(hall va hva).1, (hall va hva).2.1, hnone va, (hall va hva).2.2⟩
  have hdist : [0, 0x1000, 0x200000].Pairwise (¬ SamePage · ·) := by decide
  obtain ⟨s₁, hmap⟩ := mapEach_true hinv (fun f hf => (hF f hf).1) hvas hdist (by rw [hlen]; decide)
  obtain ⟨⟨s₂, hrun, hlook, -, -, hcount⟩, -⟩ :=
    map_unmap_restores hreach (fun q t hq hs => absurd (htab q t hq).1 hs) hvas hdist hmap
    (show [0x200000, 0, 0x1000].Perm [0, 0x1000, 0x200000] by decide)
  exact ⟨s, s₁, s₂, hreach, hmap, hrun, fun va => (hlook va).trans (hnone va), hcount⟩

end Cing.Page
