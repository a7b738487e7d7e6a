/-
Which words the mappers of mem_page.c write: those of the root they are given, and those of frames of the pool that were not handed
out before. Two page tables below different roots, the second built later, have no word in common, so neither mapper changes what
the other root translates; and on the way no mapper takes back a page it has mapped.
-/
import Cing.Mem.Kernel

namespace Cing.Mem

open Exec Page

/-! ## Words -/

/-- The words of a root, and of the frames of the pool from number `c` on. -/
def TableWord (im : MemImage) (root c x : Nat) : Prop :=
  root ≤ x ∧ x < root + pageSize4K ∨ im.framePoolBootstrap + c * pageSize4K ≤ x ∧
    x < im.framePoolBootstrap + frameCapBootstrap * pageSize4K

/-- No other words changed. -/
def WritesTo (im : MemImage) (root c : Nat) (m m' : Words) : Prop := ∀ x, ¬ TableWord im root c x → m' x = m x

section Words

variable {im : MemImage} {root c x t : Nat} {m m' m'' : Words} {q : List (Fin 512)}

theorem WritesTo.refl (im : MemImage) (root c : Nat) (m : Words) : WritesTo im root c m m := fun _ _ => rfl

theorem WritesTo.trans (h : WritesTo im root c m m') (h' : WritesTo im root c m' m'') : WritesTo im root c m m'' :=
  fun x hx => (h' x hx).trans (h x hx)

/-- A root, or a frame of the pool from number `c` on. -/
def TablePage (im : MemImage) (root c t : Nat) : Prop :=
  t = root ∨ ∃ k, c ≤ k ∧ k < frameCapBootstrap ∧ t = im.framePoolBootstrap + k * pageSize4K

theorem TablePage.word (h : TablePage im root c t) (hx : t ≤ x) (hx' : x < t + pageSize4K) : TableWord im root c x := by
  rcases h with rfl | ⟨k, hk, hk', rfl⟩
  · exact .inl ⟨hx, hx'⟩
  · unfold pageSize4K at hx hx'
    unfold TableWord pageSize4K
    omega

theorem TablePage.entry (h : TablePage im root c t) (i : Fin 512) : TableWord im root c (t + tabEntryLen * i) := by
  have hi := i.isLt
  refine h.word (by omega) ?_
  unfold tabEntryLen pageSize4K
  omega

/-- A table is linked and zeroed. -/
theorem writesTo_linked {f : Nat} (hx : TableWord im root c x) (hf : TablePage im root c f) :
    WritesTo im root c m (linked m x f) := by
  intro y hy
  unfold linked
  rw [if_neg fun hin => hy (hf.word hin.1 hin.2), Function.update_of_ne fun he : y = x => hy (he ▸ hx)]

theorem writesTo_update {v : Nat} (hx : TableWord im root c x) : WritesTo im root c m (Function.update m x v) :=
  fun y hy => Function.update_of_ne (fun he : y = x => hy (he ▸ hx)) _ _

/-- The words of the tables below a root are the same. -/
def SameTables (root : Nat) (m m' : Words) : Prop :=
  ∀ q t, Radix.node (entries m) root q = some t → ∀ i : Fin 512, m' (t + tabEntryLen * i) = m (t + tabEntryLen * i)

theorem SameTables.entries (h : SameTables root m m') (hq : Radix.node (entries m) root q = some t) (d : Nat) (i : Fin 512) :
    Page.entries m' d t i = Page.entries m d t i := by
  unfold Page.entries
  rw [h q t hq i]

theorem SameTables.node (h : SameTables root m m') (q : List (Fin 512)) :
    Radix.node (Page.entries m') root q = Radix.node (Page.entries m) root q := by
  refine Radix.node_congr (fun q t hq i c => ?_) q
  rw [h.entries hq]

/-- What the hardware finds depends on the words of the tables only. -/
theorem SameTables.lookup (h : SameTables root m m') (va : Nat) : Page.lookup m' root va = Page.lookup m root va := by
  refine Radix.walk_congr fun d _ l => exists_congr fun t => ?_
  rw [h.node]
  refine and_congr_right fun ht => ?_
  rw [h.entries ht]

end Words

/-! ## _map_bootstrap -/

section Early

variable {im : MemImage} {root t e va : Nat} {h0 : root % pageSize4K = 0} {s s' : PageState} {q : List (Fin 512)}
    {ok ok' : Bool} {r : Option Nat}

/-- The tables of the identity map are its root and frames of the pool. -/
theorem early_page (h : EarlyTree (view im root h0) s) (hq : node (view im root h0) s.mem q = some t) : TablePage im root 0 t := by
  cases q with
  | nil => exact .inl (Option.some.inj hq).symm
  | cons i q =>
    obtain ⟨k, hk, rfl⟩ := h.pool hq nofun
    exact .inr ⟨k, Nat.zero_le k, hk.trans_le h.count, rfl⟩

/-- The loop over the upper levels writes into tables, and ends with one. -/
theorem mapEarlyLoop_words (hpl : EarlyPlaced (view im root h0)) :
    ∀ {lv d t : Nat} {ok ok' : Bool} {r : Option Nat} {s s' : PageState},
    lv + d = 2 → EarlyTree (view im root h0) s → node (view im root h0) s.mem (Radix.path (key va) d) = some t →
    lookup s.mem root va = none → mapEarlyLoop (view im root h0) va (lv + 2) ok t s = .ok (ok', r) s' →
    WritesTo im root 0 s.mem s'.mem ∧ EarlyTree (view im root h0) s' ∧ lookup s'.mem root va = none ∧
      ∀ c, r = some c → node (view im root h0) s'.mem (Radix.path (key va) 2) = some c
  | 0, d, t, ok, ok', r, s, s', hd, h, ht, hnone, hrun => by
    obtain rfl : d = 2 := by omega
    cases hrun
    exact ⟨.refl im root 0 _, h, hnone, fun c hc => Option.some.inj hc ▸ ht⟩
  | lv + 1, d, t, ok, ok', r, s, s', hd, h, ht, hnone, hrun => by
    obtain ⟨ok₁, r₁, s₁, hround, h₁, hg, hends, hs₁⟩ := h.table_run hpl (by omega : d < 2) ht hnone ok
    have hwrites : WritesTo im root 0 s.mem s₁.mem := by
      rcases hs₁ with rfl | ⟨rfl, hc⟩
      · exact .refl im root 0 _
      · exact writesTo_linked ((early_page h ht).entry _) (.inr ⟨_, Nat.zero_le _, hc, rfl⟩)
    have hnone₁ : lookup s₁.mem root va = none := (hg.lookup va).trans hnone
    have hidx : vaddTabIndex va (lv + 3) s = .ok (tabIndex va (lv + 3)) s := vaddTabIndex_run (by omega) va s
    have hkey : key va d = tabIndex va (lv + 3) := by
      unfold key
      rw [show 4 - d = lv + 3 by omega]
    rw [hkey, show 4 - d = lv + 3 by omega] at hround
    rw [mapEarlyLoop, Exec.bind_ok hidx, Exec.bind_ok hround] at hrun
    cases r₁ with
    | none =>
      cases hrun
      exact ⟨hwrites, h₁, hnone₁, fun c hc => by cases hc⟩
    | some c =>
      have hc : node (view im root h0) s₁.mem (Radix.path (key va) (d + 1)) = some c := by
        cases hends with
        | found hc => exact hc
        | linked _ hc _ => exact hc
      obtain ⟨hw, hrest⟩ := mapEarlyLoop_words hpl (by omega : lv + (d + 1) = 2) h₁ hc hnone₁ hrun
      exact ⟨hwrites.trans hw, hrest⟩

/-- `_map_early` of the next page writes into tables. -/
theorem mapEarly_words (hpl : EarlyPlaced (view im root h0)) (h : Identity (view im root h0) s e)
    (hrun : mapEarly (view im root h0) ok e e s = .ok ok' s') : WritesTo im root 0 s.mem s'.mem := by
  unfold mapEarly at hrun
  obtain ⟨-, hrun⟩ := kernelAssert_bind hrun
  obtain ⟨-, hrun⟩ := kernelAssert_bind hrun
  obtain ⟨⟨ok₁, r⟩, s₁, hloop, hrest⟩ := Exec.bind_eq_ok.1 hrun
  obtain ⟨hwrites, h₁, hnone, hnode⟩ := mapEarlyLoop_words hpl (by omega : 2 + 0 = 2) h.tree rfl h.none hloop
  cases ok₁ with
  | false =>
    cases hrest
    exact hwrites
  | true =>
    cases r with
    | none =>
      cases hrest
      exact hwrites
    | some c =>
      have hle := h.le
      obtain ⟨hleaf, -⟩ := h₁.leaf h.align (by unfold va48LowEnd; omega) (hnode c rfl) hnone
      have hrest : (earlyLeaf e e c >>= fun _ => pure true) s₁ = .ok ok' s' := hrest
      rw [Exec.bind_ok hleaf] at hrest
      cases hrest
      exact hwrites.trans (writesTo_update ((early_page h₁ (hnode c rfl)).entry _))

end Early

/-! ## _map_page -/

/-- The tables below `_tab_4` are in its root and in frames of the pool from number `c` on. -/
structure TreeFrom (im : MemImage) (c : Nat) (s : MemState) : Prop extends Tree im s where
  page : ∀ {q t}, tableAt im s.mem q = some t → TablePage im im.tab4 c t
  le : c ≤ s.frameCountBootstrap

/-- What mapping below `_tab_4` does, wherever it stops: what was translated still is, and only words of those tables were
written. -/
structure Extended (im : MemImage) (c : Nat) (s s' : MemState) : Prop where
  tree : TreeFrom im c s'
  lookup : ∀ va l, lookup s.mem im.tab4 va = some l → lookup s'.mem im.tab4 va = some l
  writes : WritesTo im im.tab4 c s.mem s'.mem
  stage : s'.bootStage = s.bootStage

section Late

variable {im : MemImage} {c t va pa : Nat} {s s' s'' : MemState} {q : List (Fin 512)}

theorem Extended.refl (h : TreeFrom im c s) : Extended im c s s := ⟨h, fun _ _ => id, .refl im im.tab4 c s.mem, rfl⟩

theorem Extended.trans (h : Extended im c s s') (h' : Extended im c s' s'') : Extended im c s s'' :=
  ⟨h'.tree, fun va l hl => h'.lookup va l (h.lookup va l hl), h.writes.trans h'.writes, h'.stage.trans h.stage⟩

/-- The same of a run from any state whose tables are there. -/
def Extends (im : MemImage) (c : Nat) (s s' : MemState) : Prop := TreeFrom im c s → Extended im c s s'

theorem extends_refl (s : MemState) : Extends im c s s := .refl

theorem extends_trans (s t u : MemState) (h1 : Extends im c s t) (h2 : Extends im c t u) : Extends im c s u :=
  fun h => (h1 h).trans (h2 (h1 h).tree)

/-- Linking the next frame of the pool. -/
theorem TreeFrom.link (h : TreeFrom im c s) {i : Fin 512} (hq : tableAt im s.mem q = some t) (hlen : q.length < 3)
    (hz : s.mem (t + tabEntryLen * i) = 0) (hc : s.frameCountBootstrap < frameCapBootstrap) :
    Extended im c s (withTable im s (t + tabEntryLen * i)) ∧
      tableAt im (withTable im s (t + tabEntryLen * i)).mem (i :: q) =
        some (im.framePoolBootstrap + s.frameCountBootstrap * pageSize4K) := by
  obtain ⟨htree, hlook, -, hsome, helse⟩ := h.toTree.link hq hlen hz hc
  have hframe : TablePage im im.tab4 c (im.framePoolBootstrap + s.frameCountBootstrap * pageSize4K) := .inr ⟨_, h.le, hc, rfl⟩
  refine ⟨⟨⟨htree, fun {p x} hp => ?_, h.le.trans (Nat.le_succ _)⟩, fun va l hl => (hlook va).trans hl,
    writesTo_linked ((h.page hq).entry i) hframe, rfl⟩, hsome⟩
  by_cases hpq : p = i :: q
  · rw [hpq, hsome] at hp
    exact Option.some.inj hp ▸ hframe
  · exact h.page ((helse p hpq).symm.trans hp)

/-- A round of `_map_page` finds a table, or links one, or stops before it changed anything. -/
theorem TreeFrom.table_cases (h : TreeFrom im c s) {d : Nat} (hd : d < 3) (ht : tableAt im s.mem (Radix.path (key va) d) = some t) :
    (∃ x s', pageTable im (4 - d) (t + tabEntryLen * key va d) s = .ok x s' ∧ Extended im c s s' ∧
      tableAt im s'.mem (Radix.path (key va) (d + 1)) = some x) ∨
    ∃ e, pageTable im (4 - d) (t + tabEntryLen * key va d) s = .error e s := by
  rcases h.toTree.pageTable_run hd ht with ⟨x, hrun, hx⟩ | ⟨hz, ⟨hcap, hrun⟩ | ⟨hcap, hrun⟩⟩
  · exact .inl ⟨x, s, hrun, .refl h, hx⟩
  · obtain ⟨hext, hsome⟩ := h.link ht (by rw [Radix.path_length]; exact hd) hz hcap
    exact .inl ⟨_, _, hrun, hext, hsome⟩
  · exact .inr ⟨_, hrun⟩

/-- The loop of `_map_page` gets to the table of the last level, or stops. -/
theorem mapPageLoop_extends (va : Nat) : ∀ {lv d t : Nat} {s : MemState}, lv + d = 3 → TreeFrom im c s →
    tableAt im s.mem (Radix.path (key va) d) = some t →
    (∃ x s', mapPageLoop im va (lv + 1) t s = .ok x s' ∧ Extended im c s s' ∧ tableAt im s'.mem (Radix.path (key va) 3) = some x) ∨
    ∃ e s', mapPageLoop im va (lv + 1) t s = .error e s' ∧ Extended im c s s'
  | 0, d, t, s, hd, h, ht => by
    obtain rfl : d = 3 := by omega
    exact .inl ⟨t, s, rfl, .refl h, ht⟩
  | lv + 1, d, t, s, hd, h, ht => by
    have hkey : tabIndex va (lv + 2) = key va d := by unfold key; rw [show 4 - d = lv + 2 by omega]
    have hround := h.table_cases (by omega) ht
    rw [show 4 - d = lv + 2 by omega] at hround
    rw [mapPageLoop, bind_ok (tabEntryIdx_run (by omega) va s), hkey]
    rcases hround with ⟨x, s₁, hrun, hext, hx⟩ | ⟨e, hrun⟩
    · rw [bind_ok hrun]
      have hrest := mapPageLoop_extends va (show lv + (d + 1) = 3 by omega) hext.tree hx
      rcases hrest with ⟨y, s₂, hrun₂, hext₂, hy⟩ | ⟨e, s₂, hrun₂, hext₂⟩
      · exact .inl ⟨y, s₂, hrun₂, hext.trans hext₂, hy⟩
      · exact .inr ⟨e, s₂, hrun₂, hext.trans hext₂⟩
    · rw [bind_error hrun]
      exact .inr ⟨e, s, rfl, .refl h⟩

theorem tabEntryCheck_keeps (level paddSize : Nat) : Keeps Eq (Mem.tabEntryCheck level paddSize) :=
  .ite (kernelAssert_keeps (fun _ => rfl) _ _) (.ite (kernelAssert_keeps (fun _ => rfl) _ _)
    (.ite (kernelAssert_keeps (fun _ => rfl) _ _) (.throw (fun _ => rfl) _)))

theorem tabEntryInit_keeps (level : Nat) (present write : Bool) (padd paddSize : Nat) :
    Keeps Eq (Mem.tabEntryInit level present write padd paddSize) := by
  refine .eq_bind (tabEntryCheck_keeps level paddSize) fun _ => .eq_bind (kernelAssert_keeps (fun _ => rfl) _ _) fun _ => ?_
  exact .eq_bind (kernelAssert_keeps (fun _ => rfl) _ _) fun _ => .pure (fun _ => rfl) _

/-- Writing the leaf, where its entry is zero. -/
theorem TreeFrom.leaf (h : TreeFrom im c s) (ht : tableAt im s.mem (Radix.path (key va) 3) = some t)
    (hz : s.mem (t + tabEntryLen * key va 3) = 0) (hp : Target pa) :
    Extended im c s (withLeaf s (t + tabEntryLen * key va 3) pa) := by
  obtain ⟨htree, hnode, -, hother⟩ := h.toTree.leaf va ht hp
  refine ⟨⟨htree, fun {q x} hq => h.page ((hnode q).symm.trans hq), h.le⟩, fun va' l hl => ?_,
    writesTo_update ((h.page ht).entry _), rfl⟩
  by_cases hsame : SamePage va' va
  · rw [lookup_samePage hsame, (h.zero_iff ht).1 hz] at hl
    cases hl
  · exact (hother va' hsame).trans hl

/-- Wherever `_map_page` stops, it has extended the map. -/
theorem mapPage_extends (im : MemImage) (c va pa : Nat) : Keeps (Extends im c) (mapPage im im.tab4 va pa) := by
  refine .bind extends_trans (kernelAssert_keeps extends_refl _ _) fun _ =>
    .bind extends_trans (kernelAssert_keeps extends_refl _ _) fun _ s h => ?_
  rcases mapPageLoop_extends va (show 3 + 0 = 3 from rfl) h rfl with ⟨x, s₁, hloop, hext, hx⟩ | ⟨e, s₁, hloop, hext⟩
  · rw [bind_ok hloop, bind_ok (tabEntryIdx_run (by omega) va s₁), bind_ok (get_run s₁)]
    by_cases hz : s₁.mem (x + tabEntryLen * tabIndex va 1) = 0
    · rw [bind_ok (kernelAssert_pos hz _ s₁)]
      have hsame := tabEntryInit_keeps 1 true true pa pageSize4K s₁
      cases hinit : Mem.tabEntryInit 1 true true pa pageSize4K s₁ with
      | ok e s₂ =>
        obtain ⟨hp, rfl, rfl⟩ := tabEntryInit_ok (by omega) hinit
        rw [bind_ok hinit]
        exact hext.trans (hext.tree.leaf hx hz hp)
      | error e s₂ =>
        rw [hinit] at hsame
        rw [bind_error hinit]
        exact hsame ▸ hext
    · rw [bind_error (kernelAssert_neg hz _ s₁)]
      exact hext
  · rw [bind_error hloop]
    exact hext

/-! ## _map_impl -/

variable {dbg : Bool} {root k i r p nPg : Nat} {list : PaList} {l : List Nat}

/-- Wherever `_map_impl` stops, it has extended the map. -/
theorem mapImpl_extends (dbg : Bool) (im : MemImage) (c k va nPg : Nat) (list : PaList) :
    Keeps (Extends im c) (mapImpl dbg im k im.tab4 va nPg list) := by
  have hcheck : ∀ (q : Prop) [Decidable q] (expr : String), Keeps (Extends im c) (kernelAssertD dbg q expr) :=
    fun q _ expr => kernelAssertD_keeps extends_refl dbg q expr
  have hloop : ∀ k i r p, Keeps (Extends im c) (mapImplLoop dbg im im.tab4 va nPg list k i r p) := by
    intro k
    induction k with
    | zero => exact fun _ _ _ => .throw extends_refl _
    | succ k ih =>
      intro i r p
      have hnum : ∀ (q : Prop) [Decidable q] (expr : String) (v : Nat),
          Keeps (Extends im c) (kernelAssertD dbg q expr >>= fun _ => pure v) :=
        fun q _ expr v => .bind extends_trans (hcheck q expr) fun _ => .pure extends_refl v
      refine .ite (.bind extends_trans (hnum _ _ _) fun _ => .bind extends_trans (hcheck _ _) fun _ => ?_) (.pure extends_refl _)
      refine .bind extends_trans (hnum _ _ _) fun _ => .ite (.bind extends_trans ?_ fun pa => ?_) (ih _ _ _)
      · exact .bind extends_trans (hcheck _ _) fun _ => hnum _ _ _
      · exact .bind extends_trans (mapPage_extends im c _ _) fun _ => ih _ _ _
  exact .bind extends_trans (kernelAssert_keeps extends_refl _ _) fun _ => .bind extends_trans (hcheck _ _) fun _ => hloop k 0 0 0

/-- With more rounds the loop ends as it did. -/
theorem mapImplLoop_more {k i r p : Nat} {s : MemState} (h : mapImplLoop dbg im root va nPg list k i r p s = .ok () s') (j : Nat) :
    mapImplLoop dbg im root va nPg list (k + j) i r p s = .ok () s' := by
  induction k generalizing i r p s with
  | zero => cases h
  | succ k ih =>
    rw [Nat.add_right_comm, mapImplLoop]
    rw [mapImplLoop] at h
    split at h
    next hi =>
      rw [if_pos hi]
      obtain ⟨nRange, s₁, h1, hrest⟩ := bind_eq_ok.1 h
      obtain ⟨_, s₂, h2, hrest₂⟩ := bind_eq_ok.1 hrest
      obtain ⟨m, s₃, h3, hrest₃⟩ := bind_eq_ok.1 hrest₂
      rw [bind_ok h1, bind_ok h2, bind_ok h3]
      split at hrest₃
      next hp =>
        obtain ⟨rangePa, s₄, h4, hrest₄⟩ := bind_eq_ok.1 hrest₃
        obtain ⟨_, s₅, h5, hrest₅⟩ := bind_eq_ok.1 hrest₄
        rw [if_pos hp, bind_ok h4, bind_ok h5]
        exact ih hrest₅
      next hp =>
        rw [if_neg hp]
        exact ih hrest₃
    next hi =>
      rw [if_neg hi]
      exact h

theorem Tree.from_zero (h : Tree im s) : TreeFrom im 0 s := by
  refine ⟨h, fun {q t} hq => ?_, Nat.zero_le _⟩
  cases q with
  | nil => exact .inl (Option.some.inj hq).symm
  | cons i q =>
    obtain ⟨k, hk, rfl⟩ := h.pool hq nofun
    exact .inr ⟨k, Nat.zero_le k, hk.trans_le h.count, rfl⟩

theorem mapPages_extends (im : MemImage) (c va i : Nat) (l : List Nat) : Keeps (Extends im c) (mapPages im im.tab4 va i l) := by
  induction l generalizing i with
  | nil => exact .pure extends_refl _
  | cons pa l ih => exact .bind extends_trans (mapPage_extends im c _ _) fun _ => ih _

/-- Pages that were mapped one after the other are all mapped at the end. -/
theorem mapPages_ok : ∀ {l : List Nat} {i : Nat} {s : MemState}, Tree im s → mapPages im im.tab4 va i l s = .ok () s' →
    ∀ j pa, l[j]? = some pa → Target pa ∧ lookup s'.mem im.tab4 (va + (i + j) * pageSize4K) = some ⟨hwPadd (pa + 3), true, false⟩
  | [], _, _, _, _, _, _, hj => by cases hj
  | pa₀ :: l, i, s, h, hrun, j, pa, hj => by
    rw [mapPages] at hrun
    obtain ⟨_, s₁, hpage, hrest⟩ := bind_eq_ok.1 hrun
    obtain ⟨-, htarget, hm⟩ := mapPage_ok h hpage
    cases j with
    | zero =>
      obtain rfl : pa₀ = pa := Option.some.inj hj
      refine ⟨htarget, ?_⟩
      have hhere := hm.here (va + (i + 0) * pageSize4K) (SamePage.symm (samePage_u64 _))
      have hext := mapPages_extends im 0 va (i + 1) l s₁ hm.tree.from_zero
      rw [hrest] at hext
      exact hext.lookup _ _ hhere
    | succ j =>
      have hnext := mapPages_ok hm.tree hrest j pa hj
      rwa [show i + 1 + j = i + (j + 1) by omega] at hnext

/-- When `_map_impl` of one range returns, the pages of the range are mapped. -/
theorem mapImpl_range_ok (h : Tree im s) {pa : Nat} (hlist : list.n = 1 ∧ list.pa 0 = pa ∧ list.nPg 0 = nPg)
    (hpa : pa % pageSize4K = 0)
    (hrun : mapImpl dbg im k im.tab4 va nPg list s = .ok () s') : ∀ j < nPg, Target (u64 (pa + j * pageSize4K)) ∧
      lookup s'.mem im.tab4 (va + j * pageSize4K) = some ⟨hwPadd (u64 (pa + j * pageSize4K) + 3), true, false⟩ := by
  obtain ⟨hn, rfl, rfl⟩ := hlist
  unfold mapImpl at hrun
  obtain ⟨-, hrun⟩ := kernelAssert_bind hrun
  have hloop := mapImplLoop_more (kernelAssertD_bind hrun) (list.nPg 0 + 2)
  have hpages : list.pages = list.rangePages 0 := PaList.pages_one hn
  have hal : list.Aligned := by
    intro r hr _
    obtain rfl : r = 0 := by omega
    exact hpa
  rw [mapImplLoop_eq hal
    (by rw [List.drop_zero, list.pagesFrom_zero, hpages, list.rangePages_length]; exact Nat.zero_add _) (Nat.zero_le _)
    (by rw [List.drop_zero, list.pagesFrom_zero, hpages, list.rangePages_length, hn]; omega), List.drop_zero,
      list.pagesFrom_zero, hpages] at hloop
  intro j hj
  have hget : (list.rangePages 0)[j]? = some (u64 (list.pa 0 + j * pageSize4K)) := by
    rw [PaList.rangePages, List.getElem?_map, List.getElem?_range hj]
    rfl
  have hmapped := mapPages_ok h hloop j _ hget
  rwa [Nat.zero_add] at hmapped

end Late

end Cing.Mem
