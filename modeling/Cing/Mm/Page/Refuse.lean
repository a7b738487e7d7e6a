/-
`mm_page_map` of a page that is mapped already. On the way down it takes every present entry for a table.
For a 4K page it comes to the leaf entry, which is not zero, and stops. For a 2M page it takes the page for
a table: the word it finds there decides whether it stops or writes the entry into the page.
-/
import Cing.Mm.Page.Pool

namespace Cing.Page

open Linked

variable {im : Image} {s s' : PageState} {F : List Nat} {f t va pa : Nat} {l : Leaf}

/-! ## The statement -/

/-- The call stops at an assertion, and each word it changed is of a page table or of a frame that was free. -/
def Refused (im : Image) (s : PageState) (va pa : Nat) : Prop :=
  ∃ expr s', mmPageMap im va pa s = .error (.assertFail expr) s' ∧
    ∀ x, s'.mem x ≠ s.mem x → ∃ t, (IsTable im s t ∨ OnFreeList s t) ∧ t ≤ x ∧ x < t + pageSize4K

/-- The word that the call takes for the leaf entry of `va`, with a 2M page in place of the table. The frame in hand is
zeroed by then, and the entry of the window shows the page. -/
def wordInside (im : Image) (s : PageState) (f va : Nat) (l : Leaf) : Nat :=
  if l.base = f then 0
  else if l.base + tabEntryLen * tabIndex va 1 = directTabEntry im then l.base + 3
  else s.mem (l.base + tabEntryLen * tabIndex va 1)

/-- What stops the call once it has a frame in hand. -/
def StopsWith (im : Image) (s : PageState) (f va pa : Nat) (l : Leaf) : Prop :=
  va48LowEnd < f ∨ l.huge = false ∨ va48LowEnd < l.base ∨ va48LowEnd < pa ∧ pa < va48HighStart ∨ wordInside im s f va l ≠ 0

/-! ## The way down -/

/-- The rounds that find their tables. -/
theorem mapLoop_down (h : Inv im s F) (hf : f ≠ 0) : ∀ {d t : Nat}, d ≤ 3 → node im s.mem (Radix.path (key va) d) = some t →
    mapLoop im va 4 im.tab4 f s = mapLoop im va (4 - d) t f s
  | 0, t, _, ht => by
    cases ht
    rfl
  | d + 1, t, hd, ht => by
    obtain ⟨t', ht', hdec⟩ := Radix.node_cons.1 ht
    rw [mapLoop_down h hf (by omega) ht']
    obtain ⟨lv, hlv⟩ : ∃ lv, 4 - d = lv + 2 := ⟨2 - d, by omega⟩
    have hkey : key va d = tabIndex va (lv + 2) := by rw [key, hlv]
    rw [hlv, show 4 - (d + 1) = lv + 1 by omega]
    rw [Radix.path, hkey] at ht
    exact mapLoop_table h hf (by omega) ht' (by rw [Radix.path_length]; omega) ht

/-- The loop takes a 2M page for the last table. -/
theorem mapLoop_huge (h : Inv im s F) (hf : f ≠ 0) (hl : lookup s.mem im.tab4 va = some l) (hh : l.huge = true) :
    mapLoop im va 4 im.tab4 f s = .ok (true, l.base, f) s := by
  obtain ⟨t, ht, hdec, -⟩ := h.tree.leaf_spec hl
  have hdepth : l.depth = 2 := by unfold Leaf.depth; rw [if_pos hh]
  rw [hdepth] at ht hdec
  have hpage := (h.tree.frame ht).1
  have hkey : key va 2 = tabIndex va 2 := rfl
  have hok := h.tree.entry ht (key va 2)
  rw [Radix.path_length] at hok
  obtain ⟨hpres, -, hpadd, -⟩ := decode_eq_leaf hok hdec
  have hread := readEntry_run h ht (h.short_ne_window ht (by rw [Radix.path_length]; omega) (key va 2))
  have hspare : spareFrame im f s = .ok (some f) s := by unfold spareFrame; rw [if_neg hf]; rfl
  have hlink : linkTable im 2 (directVadd + tabEntryLen * key va 2) f (withWindow im s t) = .ok f (withWindow im s t) := by
    unfold linkTable
    rw [Exec.bind_ok hread, if_pos hpres]
    rfl
  rw [mapLoop_down h hf (by omega) ht, mapLoop, Exec.bind_ok hspare]
  show (mmPageDirectAccessSetup im t >>= fun tabVa => _) s = _
  rw [Exec.bind_ok (setup_run hpage h.window), Exec.bind_ok (vaddTabIndex_run (by omega) va _), ← hkey, Exec.bind_ok hlink,
    Exec.bind_ok hread, Exec.bind_ok (closeWindow_run h.window hpage), hpadd]
  rfl

/-! ## The leaf -/

/-- The leaf entry is not zero. -/
theorem mapLeaf_taken (h : Inv im s F) (ht : node im s.mem (Radix.path (key va) 3) = some t)
    (hne : s.mem (t + tabEntryLen * key va 3) ≠ 0) (hva : ¬ SamePage va directVadd) (pa : Nat) :
    ∃ expr, mapLeaf im va pa t s = .error (.assertFail expr) (withWindow im s t) := by
  have hpage := (h.tree.frame ht).1
  have hkey : tabIndex va 1 = key va 3 := rfl
  have hread := readEntry_run h ht (h.word_ne_window ht fun e => hva (samePage_path.2 e))
  unfold mapLeaf
  rw [Exec.bind_ok (setup_run hpage h.window), Exec.bind_ok (vaddTabIndex_run (by omega) va _), hkey, Exec.bind_ok hread,
    Exec.bind_error (kernelAssert_neg hne _ _)]
  exact ⟨_, rfl⟩

section Inside

variable {b : Nat}

/-- Reading what would be the leaf entry, inside a page that is no table. -/
theorem readInside_run (h : Inv im s F) (hb : IsPage b) (i : Fin 512) :
    readVa im (directVadd + tabEntryLen * i) (withWindow im s b) =
      .ok ((withWindow im s b).mem (b + tabEntryLen * i)) (withWindow im s b) :=
  readVa_run (translate_entry (Direct.withWindow h.tree hb) hb (withWindow_entry im s b) i)

theorem mapLeaf_nonzero (h : Inv im s F) (hb : IsPage b) (hne : (withWindow im s b).mem (b + tabEntryLen * tabIndex va 1) ≠ 0)
    (pa : Nat) : ∃ expr, mapLeaf im va pa b s = .error (.assertFail expr) (withWindow im s b) := by
  unfold mapLeaf
  rw [Exec.bind_ok (setup_run hb h.window), Exec.bind_ok (vaddTabIndex_run (by omega) va _),
    Exec.bind_ok (readInside_run h hb _), Exec.bind_error (kernelAssert_neg hne _ _)]
  exact ⟨_, rfl⟩

theorem mapLeaf_gap (h : Inv im s F) (hb : IsPage b) (hz : (withWindow im s b).mem (b + tabEntryLen * tabIndex va 1) = 0)
    (hal : pa % 4096 = 0) (hgap : ¬ (pa ≤ va48LowEnd ∨ pa ≥ va48HighStart)) :
    ∃ expr, mapLeaf im va pa b s = .error (.assertFail expr) (withWindow im s b) := by
  obtain ⟨expr, hinit⟩ := tabEntryInit_gap hal hgap (withWindow im s b)
  unfold mapLeaf
  rw [Exec.bind_ok (setup_run hb h.window), Exec.bind_ok (vaddTabIndex_run (by omega) va _),
    Exec.bind_ok (readInside_run h hb _), Exec.bind_ok (kernelAssert_pos hz _ _), Exec.bind_error hinit]
  exact ⟨_, rfl⟩

/-- The entry is written over a zero word of the page. -/
theorem mapLeaf_inside (h : Inv im s F) (hb : IsPage b) (hz : (withWindow im s b).mem (b + tabEntryLen * tabIndex va 1) = 0)
    (hal : pa % 4096 = 0) (hpa : pa ≤ va48LowEnd ∨ pa ≥ va48HighStart) :
    ∃ s', mapLeaf im va pa b s = .ok () s' ∧ s'.mem (directTabEntry im) = 0 ∧ ∀ x, s.mem x ≠ 0 → s'.mem x = s.mem x := by
  have hal' : mmAlignCheck pa pageSize4K = true := mmAlignCheck_iff.2 hal
  have hne : b + tabEntryLen * tabIndex va 1 ≠ directTabEntry im := by
    intro e
    rw [e, withWindow_entry] at hz
    omega
  have hinit : ∀ s, tabEntryInit 1 true true pa pageSize4K s = .ok (pa ||| 1 ||| 2 ||| 0) s := by
    intro s
    unfold tabEntryInit tabEntryCheck
    rw [if_pos (.inr rfl), Exec.bind_ok (kernelAssert_pos rfl _ s), Exec.bind_ok (kernelAssert_pos hal' _ s),
      Exec.bind_ok (kernelAssert_pos hpa _ s)]
    rfl
  have hwrite : ∀ v, writeVa im (directVadd + tabEntryLen * tabIndex va 1) v (withWindow im s b) =
      .ok () (withWindow im (withWord s (b + tabEntryLen * tabIndex va 1) v) b) := by
    intro v
    rw [writeVa_run v (translate_entry (Direct.withWindow h.tree hb) hb (withWindow_entry im s b) _)]
    unfold withWindow withWord
    rw [Function.update_comm hne]
  have hw : ∀ v, (withWord s (b + tabEntryLen * tabIndex va 1) v).mem (directTabEntry im) = 0 :=
    fun v => (Function.update_of_ne hne.symm _ _).trans h.window
  refine ⟨withWord s (b + tabEntryLen * tabIndex va 1) (pa ||| 1 ||| 2 ||| 0), ?_, hw _, fun x hx => ?_⟩
  · unfold mapLeaf
    rw [Exec.bind_ok (setup_run hb h.window), Exec.bind_ok (vaddTabIndex_run (by omega) va _),
      Exec.bind_ok (readInside_run h hb _), Exec.bind_ok (kernelAssert_pos hz _ _), Exec.bind_ok (hinit _),
      Exec.bind_ok (hwrite _), closeWindow_run (hw _) hb]
  · refine Function.update_of_ne (fun e : x = b + tabEntryLen * tabIndex va 1 => hx ?_) _ _
    rw [withWindow_word hne] at hz
    rw [e]
    exact hz

/-- The links to the window survive where only zero words change. -/
theorem Direct.congr_nonzero {m m' : Words} (h : Direct im m) (hm : ∀ x, m x ≠ 0 → m' x = m x) : Direct im m' := by
  refine h.congr fun d _ t _ htab => hm _ fun hz => ?_
  obtain ⟨c, hc⟩ := htab
  rw [hz, decode_zero] at hc
  cases hc

/-- The frame in hand goes back, whatever was written over zero words. -/
theorem returnFrame_nonzero (h : Inv im s F) (hsp : Spare im s F f) (hw : s'.mem (directTabEntry im) = 0)
    (hm : ∀ x, s.mem x ≠ 0 → s'.mem x = s.mem x) : ∃ s'', returnFrame im f s' = .ok () s'' := by
  have hd : Direct im (withWindow im s' f).mem := by
    refine h.tree.direct.congr_nonzero fun x hx => ?_
    rw [withWindow_word fun e : x = directTabEntry im => hx (by rw [e]; exact h.window)]
    exact hm x hx
  obtain ⟨s₁, hfree, hreset⟩ := windowFree_run hd hsp.page (h.window_ne_start hsp.frame.align hsp.notTable) hw
  refine ⟨pushFrame s' f, ?_⟩
  unfold returnFrame
  rw [Exec.bind_ok (setup_run hsp.page hw), Exec.bind_ok hfree, hreset]

end Inside

/-! ## The call -/

/-- `mm_page_map` after its loop. -/
theorem mmPageMap_loop {s₁ : PageState} (hal : va % 4096 = 0) (hpa : pa % 4096 = 0)
    (hrun : mapLoop im va 4 im.tab4 0 s = .ok (true, t, f) s₁) (hw : s₁.mem (directTabEntry im) = 0) :
    mmPageMap im va pa s = (do
      mapLeaf im va pa t
      (if f ≠ 0 then returnFrame im f else pure ())
      return true : PageM Bool) s₁ := by
  have hal1 : mmAlignCheck va pageSize4K = true := mmAlignCheck_iff.2 hal
  have hal2 : mmAlignCheck pa pageSize4K = true := mmAlignCheck_iff.2 hpa
  unfold mmPageMap
  rw [Exec.bind_ok (kernelAssert_pos hal1 _ s), Exec.bind_ok (kernelAssert_pos hal2 _ s), Exec.bind_ok hrun,
    Exec.bind_ok (directAccessIsReset_run hw), Exec.bind_ok (kernelAssert_pos rfl _ _)]
  rfl

/-- The call stops where its leaf does. -/
theorem mmPageMap_stop {s₁ : PageState} {e : Stop} (hal : va % 4096 = 0) (hpa : pa % 4096 = 0)
    (hrun : mapLoop im va 4 im.tab4 0 s = .ok (true, t, f) s₁) (hw : s₁.mem (directTabEntry im) = 0)
    (hleaf : mapLeaf im va pa t s₁ = .error e s') : mmPageMap im va pa s = .error e s' := by
  rw [mmPageMap_loop hal hpa hrun hw, Exec.bind_error hleaf]

/-- The words of the window's table and of the frame in hand. -/
theorem changed_words {s₁ : PageState} (h : Inv im s (f :: F))
    (hsame : ∀ x, x ≠ directTabEntry im → (∀ j < 512, x ≠ f + tabEntryLen * j) → s₁.mem x = s.mem x) {x : Nat}
    (hx : s₁.mem x ≠ s.mem x) : ∃ t, (IsTable im s t ∨ OnFreeList s t) ∧ t ≤ x ∧ x < t + pageSize4K := by
  unfold pageSize4K
  by_cases hw : x = directTabEntry im
  · have hi := (tabIndex directVadd 1).isLt
    refine ⟨directTab im 0, .inl ⟨_, h.tree.direct.node.2.2⟩, ?_⟩
    rw [hw]
    unfold directTabEntry tabEntryLen
    omega
  · refine ⟨f, .inr (h.onFreeList.2 (List.mem_cons_self ..)), ?_⟩
    by_contra hout
    refine hx (hsame x hw fun j hj e => hout ?_)
    unfold tabEntryLen at e
    omega

/-- The word inside the page, read when the frame in hand is zeroed and the window open. -/
theorem wordInside_eq {s₁ : PageState} (h₁ : Inv im s₁ F) (hsp : Spare im s₁ F f) (hb : l.base % 4096 = 0)
    (hsame : ∀ x, (∀ j < 512, x ≠ f + tabEntryLen * j) → s₁.mem x = s.mem x) :
    (withWindow im s₁ l.base).mem (l.base + tabEntryLen * tabIndex va 1) = wordInside im s f va l := by
  have hi := (tabIndex va 1).isLt
  have hf := hsp.frame.align
  unfold wordInside
  split_ifs with h1 h2
  · rw [h1, withWindow_word (h₁.window_ne hf hsp.notTable _)]
    exact hsp.zero _
  · rw [h2, withWindow_entry]
  · rw [withWindow_word h2]
    refine hsame _ fun j hj e => h1 ?_
    unfold tabEntryLen at e
    omega

/-- With no free frame the call fails and does not look at the entries. -/
theorem not_refused_nil (h : Inv im s []) (hal : va % 4096 = 0) (hpa : pa % 4096 = 0) : ¬ Refused im s va pa := by
  have hal1 : mmAlignCheck va pageSize4K = true := mmAlignCheck_iff.2 hal
  have hal2 : mmAlignCheck pa pageSize4K = true := mmAlignCheck_iff.2 hpa
  have hloop : mapLoop im va 4 im.tab4 0 s = .ok (false, im.tab4, 0) s := by
    rw [mapLoop, Exec.bind_ok (spareFrame_nil h)]
    rfl
  rintro ⟨expr, s', hrun, -⟩
  unfold mmPageMap at hrun
  rw [Exec.bind_ok (kernelAssert_pos hal1 _ s), Exec.bind_ok (kernelAssert_pos hal2 _ s), Exec.bind_ok hloop,
    Exec.bind_ok (directAccessIsReset_run h.window), Exec.bind_ok (kernelAssert_pos rfl _ _)] at hrun
  cases hrun

theorem refused_high (h : Inv im s (f :: F)) (hf : ¬ IsPage f) (hal : va % 4096 = 0) (hpa : pa % 4096 = 0) :
    Refused im s va pa := by
  have hal1 : mmAlignCheck va pageSize4K = true := mmAlignCheck_iff.2 hal
  have hal2 : mmAlignCheck pa pageSize4K = true := mmAlignCheck_iff.2 hpa
  obtain ⟨expr, he⟩ := spareFrame_high h hf
  have hloop : mapLoop im va 4 im.tab4 0 s = .error (.assertFail expr) s := by rw [mapLoop, Exec.bind_error he]
  refine ⟨expr, s, ?_, fun x hx => absurd rfl hx⟩
  unfold mmPageMap
  rw [Exec.bind_ok (kernelAssert_pos hal1 _ s), Exec.bind_ok (kernelAssert_pos hal2 _ s), Exec.bind_error hloop]

/-- A 4K page is refused at its leaf entry. -/
theorem refused_4K (h : Inv im s (f :: F)) (hf : IsPage f) (hal : va % 4096 = 0) (hpa : pa % 4096 = 0)
    (hl : lookup s.mem im.tab4 va = some l) (hh : l.huge = false) : Refused im s va pa := by
  obtain ⟨s₁, hspare, h₁, hsp, hg, hsame⟩ := spareFrame_cons va h hf
  have hva := h.not_window hl
  obtain ⟨t, ht, hdec, -⟩ := h₁.tree.leaf_spec ((hg.lookup va).trans hl)
  have hdepth : l.depth = 3 := by unfold Leaf.depth; rw [hh]; rfl
  rw [hdepth] at ht hdec
  have hloop : mapLoop im va 4 im.tab4 0 s = .ok (true, t, f) s₁ := by
    rw [mapLoop_spare hspare hsp.frame.2.1.ne', mapLoop_down h₁ hsp.frame.2.1.ne' (by omega) ht]
    rfl
  obtain ⟨expr, hleaf⟩ := mapLeaf_taken h₁ ht (fun hz => by rw [hz, decode_zero] at hdec; cases hdec) hva pa
  exact ⟨expr, _, mmPageMap_stop hal hpa hloop h₁.window hleaf, fun x hx =>
    changed_words h (fun y hy hj => (withWindow_word hy).trans (hsame y hj)) hx⟩

/-- A page inside a 2M page is refused exactly if the page cannot be shown in the window, the frame is no page, or the word
is not zero. -/
theorem refused_2M_iff (h : Inv im s (f :: F)) (hf : IsPage f) (hal : va % 4096 = 0) (hpa : pa % 4096 = 0)
    (hl : lookup s.mem im.tab4 va = some l) (hh : l.huge = true) :
    Refused im s va pa ↔ va48LowEnd < l.base ∨ va48LowEnd < pa ∧ pa < va48HighStart ∨ wordInside im s f va l ≠ 0 := by
  obtain ⟨s₁, hspare, h₁, hsp, hg, hsame⟩ := spareFrame_cons va h hf
  have hl₁ := (hg.lookup va).trans hl
  obtain ⟨-, -, -, hb4, hb52, -⟩ := h₁.tree.leaf_spec hl₁
  have hloop : mapLoop im va 4 im.tab4 0 s = .ok (true, l.base, f) s₁ := by
    rw [mapLoop_spare hspare hsp.frame.2.1.ne', mapLoop_huge h₁ hsp.frame.2.1.ne' hl₁ hh]
  have hword : (withWindow im s₁ l.base).mem (l.base + tabEntryLen * tabIndex va 1) = wordInside im s f va l :=
    wordInside_eq h₁ hsp hb4 hsame
  -- the call stops where the leaf does, in a state that differs in tables and the frame
  have hstop : ∀ {expr}, mapLeaf im va pa l.base s₁ = .error (.assertFail expr) (withWindow im s₁ l.base) → Refused im s va pa :=
    fun hleaf => ⟨_, _, mmPageMap_stop hal hpa hloop h₁.window hleaf, fun x hx =>
      changed_words h (fun y hy hj => (withWindow_word hy).trans (hsame y hj)) hx⟩
  by_cases hb : l.base ≤ va48LowEnd
  case neg =>
    refine ⟨fun _ => .inl (by omega), fun _ => ?_⟩
    have hframe : IsFrame l.base := ⟨hb4, by unfold va48LowEnd at hb; omega, hb52⟩
    obtain ⟨expr, hsetup⟩ := setup_high hframe (fun hp => hb hp.2) h₁.window
    have hleaf : mapLeaf im va pa l.base s₁ = .error (.assertFail expr) s₁ := by
      unfold mapLeaf
      rw [Exec.bind_error hsetup]
    exact ⟨expr, _, mmPageMap_stop hal hpa hloop h₁.window hleaf, fun x hx => changed_words h (fun y _ hj => hsame y hj) hx⟩
  have hbpage : IsPage l.base := ⟨hb4, hb⟩
  by_cases hz : wordInside im s f va l = 0
  case neg =>
    obtain ⟨expr, hleaf⟩ := mapLeaf_nonzero h₁ hbpage (hword ▸ hz) pa
    exact ⟨fun _ => .inr (.inr hz), fun _ => hstop hleaf⟩
  by_cases hgap : pa ≤ va48LowEnd ∨ pa ≥ va48HighStart
  case neg =>
    obtain ⟨expr, hleaf⟩ := mapLeaf_gap h₁ hbpage (hword.trans hz) hpa hgap
    exact ⟨fun _ => .inr (.inl (by omega)), fun _ => hstop hleaf⟩
  obtain ⟨s₂, hleaf, hw, hm⟩ := mapLeaf_inside h₁ hbpage (hword.trans hz) hpa hgap
  obtain ⟨s₃, hret⟩ := returnFrame_nonzero h₁ hsp hw hm
  refine ⟨?_, by omega⟩
  rintro ⟨expr, s', hrun, -⟩
  rw [mmPageMap_loop hal hpa hloop h₁.window, Exec.bind_ok hleaf, if_pos hsp.frame.2.1.ne', Exec.bind_ok hret] at hrun
  cases hrun

/-- A page that is mapped already is refused if and only if `pa` is not aligned, or there is a free frame and the page is
of 4K, or one of the addresses cannot stand in an entry, or the word that the 2M page has in the place of the entry is
not zero. -/
theorem mapped_refused_iff (h : Reach im s) (hal : va % 4096 = 0) (hl : lookup s.mem im.tab4 va = some l)
    (hF : Chain 0 s.mem s.freeHead F) :
    Refused im s va pa ↔ pa % 4096 ≠ 0 ∨ ∃ f ∈ F.head?, StopsWith im s f va pa l := by
  obtain ⟨F', h⟩ := h.inv
  obtain rfl := hF.unique h.chain
  have hal1 : mmAlignCheck va pageSize4K = true := mmAlignCheck_iff.2 hal
  by_cases hpa : pa % 4096 = 0
  case neg =>
    have hal2 : ¬ mmAlignCheck pa pageSize4K = true := by unfold mmAlignCheck pageSize4K; simpa using hpa
    refine ⟨fun _ => .inl hpa, fun _ => ⟨"mm_align_check(pa, PAGE_SIZE_4K)", s, ?_, fun x hx => absurd rfl hx⟩⟩
    unfold mmPageMap
    rw [Exec.bind_ok (kernelAssert_pos hal1 _ s), Exec.bind_error (kernelAssert_neg hal2 _ s)]
  rw [or_iff_right fun hne => hne hpa]
  cases F with
  | nil => exact ⟨fun hr => absurd hr (not_refused_nil h hal hpa), fun ⟨f, hf, _⟩ => nomatch hf⟩
  | cons f F =>
    rw [List.head?_cons]
    simp only [Option.mem_some_iff, exists_eq_left']
    unfold StopsWith
    by_cases hf : IsPage f
    case neg =>
      refine ⟨fun _ => .inl ?_, fun _ => refused_high h hf hal hpa⟩
      by_contra hle
      exact hf ⟨(h.frames f (List.mem_cons_self ..)).1, by omega⟩
    rw [or_iff_right (show ¬ va48LowEnd < f from fun hlt => absurd hf.2 (by omega))]
    cases hh : l.huge with
    | false => exact ⟨fun _ => .inl rfl, fun _ => refused_4K h hf hal hpa hl hh⟩
    | true =>
      rw [refused_2M_iff h hf hal hpa hl hh]
      simp

/-! ## A page of the kernel -/

/-- The machine after the first round of the loop of `mm_page_bootstrap`, with a word of data at the start of a 2M page of
the kernel. -/
theorem exists_kernel_page (v : Nat) : ∃ s f F, Reach image₀ s ∧ Inv image₀ s (f :: F) ∧ IsPage f ∧ f ≠ 0x4e00000 ∧
    lookup s.mem image₀.tab4 0x4e00000 = some ⟨0x4e00000, true, true⟩ ∧ s.mem 0x4e00000 = v := by
  obtain ⟨e, s, hearly, hle, hcount⟩ := machine₀_early image₀_placed.toEarlyPlaced
  have hid := mmPageEarlyBootstrap_ok image₀_placed.toEarlyPlaced rfl rfl hearly
  obtain ⟨s₁, hinit, hun, htab⟩ := hid.begin image₀_placed (image₀_apart s) rfl
  have hstart : Start image₀ s₁ := by
    obtain ⟨s₁', hinit', hstart⟩ := (hid.early image₀_placed (image₀_apart s) rfl).start fun va l hl => by
      by_cases hva : page2M va < e
      · rw [show lookup (frameBootstrapped s).mem image₀.tab4 va = _ from hid.here va hva] at hl
        cases hl
        rfl
      · rw [show lookup (frameBootstrapped s).mem image₀.tab4 va = _ from hid.above va (by omega)] at hl
        cases hl
    rw [hinit] at hinit'
    cases hinit'
    exact hstart
  have hkernel : lookup s₁.mem image₀.tab4 0x4e00000 = some ⟨0x4e00000, true, true⟩ := by
    obtain ⟨m, hinit', -, hlinked⟩ := initDirectAccess_run (hid.early image₀_placed (image₀_apart s) rfl)
    rw [hinit] at hinit'
    cases hinit'
    have hpage : page2M 0x4e00000 = 0x4e00000 := by decide
    have := (hlinked.lookup 0x4e00000).trans (hid.here 0x4e00000 (by omega))
    rwa [hpage] at this
  -- the first page above the kernel is unmapped, and its frames are free
  have hal : 0x5200000 % (Leaf.size ⟨0x5200000, true, true⟩) = 0 := rfl
  have hl₁ : lookup s₁.mem image₀.tab4 0x5200000 = some ⟨0x5200000, true, true⟩ := hun.here 0x5200000 rfl le_rfl (by omega)
  have hunused : ∀ f ∈ Leaf.frames ⟨0x5200000, true, true⟩, Unused image₀ s₁ [] f := by
    intro f hf
    obtain ⟨k, hk, rfl⟩ := List.mem_map.1 hf
    exact hun.unused (fun t ht => image₀_placed.table_lt hid htab ht) (by show 0x5200000 < e; omega) hid.le (List.mem_range.1 hk)
  obtain ⟨s₂, F₂, hfree, h₂, hsame, -, hmem⟩ := unmapFree_run hun.inv hl₁ hal (by norm_num) fun _ : true = true => hunused
  obtain ⟨s₃, R, hrun, h₃, hunm⟩ := unmap_run hun.inv hl₁ hal hfree h₂ hsame
  have hnot : ∀ f ∈ Leaf.frames ⟨0x5200000, true, true⟩, NotInUse image₀ s₁ f := by
    intro f hf
    refine ⟨(hunused f hf).frame, fun hm => ?_, fun ⟨q, hq⟩ => (hunused f hf).notTable q hq⟩
    exact (hunused f hf).notFree (hun.inv.onFreeList.1 hm)
  have hreach : Reach image₀ s₃ := .unmap (.start hstart) (by norm_num) hl₁ hal (fun _ => hnot) hrun
  have hF₂ : ∀ f, f ∈ F₂ ↔ ∃ k < 512, f = 0x5200000 + 4096 * k := by
    intro f
    rw [hmem rfl f]
    simp
  -- the page of the kernel is neither a table nor free
  have htables : ∀ t, IsTable image₀ s₁ t → t % 4096 = 0 ∧ t ≠ 0x4e00000 := by
    intro t ht
    refine ⟨?_, ?_⟩
    · obtain ⟨q, hq⟩ := ht
      exact hun.inv.tree.align hq
    · rintro rfl
      rcases htab _ ht with h | ⟨i, hi, h⟩ | ⟨-, k, hk, h⟩
      · revert h
        decide
      · revert i
        decide
      · unfold poolFrame image₀ pageSize4K at h
        simp only at h
        omega
  have hnotF : 0x4e00000 ∉ R ++ F₂ := by
    intro hm
    rcases List.mem_append.1 hm with hm | hm
    · exact (htables _ (hunm.tables _ hm)).2 rfl
    · obtain ⟨k, hk, he⟩ := (hF₂ _).1 hm
      omega
  have hwrite : ∀ t, IsTable image₀ s₃ t → 0x4e00000 < t ∨ t + 4096 ≤ 0x4e00000 := by
    intro t ht
    obtain ⟨h1, h2⟩ := htables t (hunm.isTable.1 ht).1
    omega
  have hnotFree : ¬ OnFreeList s₃ 0x4e00000 := fun hm => hnotF (h₃.onFreeList.1 hm)
  obtain ⟨h₄, -, hlook⟩ := h₃.after_write v hwrite hnotFree
  cases hR : R ++ F₂ with
  | nil =>
    have : 0x5200000 ∈ R ++ F₂ := List.mem_append_right _ ((hF₂ _).2 ⟨0, by omega, rfl⟩)
    rw [hR] at this
    cases this
  | cons f F =>
    have hf : f ∈ R ++ F₂ := by rw [hR]; exact List.mem_cons_self ..
    refine ⟨withWord s₃ 0x4e00000 v, f, F, .write hreach hwrite hnotFree, hR ▸ h₄, ?_, fun e => hnotF (e ▸ hf), ?_, ?_⟩
    · rcases List.mem_append.1 hf with hm | hm
      · obtain ⟨q, hq⟩ := hunm.tables f hm
        exact (hun.inv.tree.frame hq).1
      · obtain ⟨k, hk, rfl⟩ := (hF₂ f).1 hm
        unfold IsPage pageSize4K va48LowEnd
        omega
    · rw [hlook, hunm.elsewhere 0x4e00000 (by decide)]
      exact hkernel
    · simp only [withWord, Function.update_self]

/-- There, the word read inside the page is that of the data. -/
theorem wordInside_kernel {s : PageState} (hf : f ≠ 0x4e00000) :
    wordInside image₀ s f 0x4e00000 ⟨0x4e00000, true, true⟩ = s.mem 0x4e00000 := by
  unfold wordInside
  rw [if_neg hf.symm, if_neg (by decide)]
  rfl

theorem mapped_refused_iff_kernel : ∃ s l, Reach image₀ s ∧ lookup s.mem image₀.tab4 0x4e00000 = some l ∧ l.huge = true ∧
    Refused image₀ s 0x4e00000 0x5200000 := by
  obtain ⟨s, f, F, h, hinv, -, hne, hl, hz⟩ := exists_kernel_page 7
  refine ⟨s, _, h, hl, rfl, (mapped_refused_iff h rfl hl hinv.chain).2 (.inr ⟨f, rfl, ?_⟩)⟩
  refine .inr (.inr (.inr (.inr ?_)))
  rw [wordInside_kernel hne, hz]
  decide

/-- The call for a page inside a 2M page of the kernel is not refused: it returns, with the entry written over a word of
the kernel. -/
theorem mapped_not_refused : ∃ s l, Reach image₀ s ∧ lookup s.mem image₀.tab4 0x4e00000 = some l ∧
    ¬ Refused image₀ s 0x4e00000 0x5200000 := by
  obtain ⟨s, f, F, h, hinv, hf, hne, hl, hz⟩ := exists_kernel_page 0
  refine ⟨s, _, h, hl, fun hr => ?_⟩
  rcases (refused_2M_iff hinv hf rfl rfl hl rfl).1 hr with hlt | hlt | hw
  · exact absurd hlt (by decide)
  · exact absurd hlt (by decide)
  · rw [wordInside_kernel hne] at hw
    exact hw hz

end Cing.Page
