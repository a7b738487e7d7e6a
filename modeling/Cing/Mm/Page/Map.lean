/-
`mm_page_map` under the invariant. A round of its loop finds a table or links the frame in hand, which
was zeroed before; so the tables it creates are empty and no translation changes before the leaf is
written. When the frames run out, the tables created so far stay, and a frame left in hand goes back.
-/
import Cing.Mm.Page.Frame

namespace Cing.Page

open Linked

variable {im : Image} {s s' s'' : PageState} {F : List Nat} {f t c va : Nat} {p : List (Fin 512)} {i : Fin 512}

/-! ## What a call adds -/

/-- From `s` to `s'` the tables `N` were linked on the way of `va`, and no translation changed. -/
structure Grown (im : Image) (va : Nat) (s s' : PageState) (N : List Nat) : Prop where
  lookup : ∀ va', lookup s'.mem im.tab4 va' = lookup s.mem im.tab4 va'
  old : ∀ {q t}, node im s.mem q = some t → node im s'.mem q = some t
  new : ∀ {q t}, node im s'.mem q = some t → node im s.mem q = some t ∨ (t ∈ N ∧ ∃ d, q = Radix.path (key va) d)
  linked : ∀ t ∈ N, ∃ q, node im s'.mem q = some t
  words : ∀ {q t}, node im s.mem q = some t → ∀ i : Fin 512, s.mem (t + tabEntryLen * i) ≠ 0 →
    s'.mem (t + tabEntryLen * i) = s.mem (t + tabEntryLen * i)

theorem Grown.trans {N N' : List Nat} (h : Grown im va s s' N) (h' : Grown im va s' s'' N') :
    Grown im va s s'' (N ++ N') := by
  refine ⟨fun va' => (h'.lookup va').trans (h.lookup va'), fun hq => h'.old (h.old hq), fun hq => ?_, fun t ht => ?_,
    fun hq i hne => ?_⟩
  · rcases h'.new hq with hq | ⟨ht, hd⟩
    · rcases h.new hq with hq | ⟨ht, hd⟩
      · exact .inl hq
      · exact .inr ⟨List.mem_append_left _ ht, hd⟩
    · exact .inr ⟨List.mem_append_right _ ht, hd⟩
  · rcases List.mem_append.1 ht with ht | ht
    · obtain ⟨q, hq⟩ := h.linked t ht
      exact ⟨q, h'.old hq⟩
    · exact h'.linked t ht
  · have e := h.words hq i hne
    rw [h'.words (h.old hq) i (e ▸ hne), e]

/-- A change outside the tables. -/
theorem Grown.of_same (va : Nat) (hnode : ∀ q, node im s'.mem q = node im s.mem q)
    (hl : ∀ va', Page.lookup s'.mem im.tab4 va' = Page.lookup s.mem im.tab4 va')
    (hm : ∀ q t, node im s.mem q = some t → ∀ i : Fin 512, s'.mem (t + tabEntryLen * i) = s.mem (t + tabEntryLen * i)) :
    Grown im va s s' [] :=
  ⟨hl, fun hq => (hnode _).trans hq, fun hq => .inl ((hnode _).symm.trans hq), nofun, fun hq i _ => hm _ _ hq i⟩

theorem Grown.refl (im : Image) (va : Nat) (s : PageState) : Grown im va s s [] :=
  .of_same va (fun _ => rfl) (fun _ => rfl) fun _ _ _ _ => rfl

/-! ## The frame in hand -/

/-- A zeroed frame that is neither free nor a table, and that can become one. -/
structure Spare (im : Image) (s : PageState) (F : List Nat) (f : Nat) : Prop extends Unused im s F f where
  page : IsPage f
  zero : ∀ j : Fin 512, s.mem (f + tabEntryLen * j) = 0

theorem tabZeroLoop_run (hp : IsPage f) (hkeep : ∀ m : Words, (∀ x, (∀ j < 512, x ≠ f + tabEntryLen * j) → m x = s.mem x) →
      Direct im m ∧ m (directTabEntry im) = f + 3) : ∀ {n : Nat}, n ≤ 512 →
    ∃ m : Words, tabZeroLoop im directVadd n s = .ok () { s with mem := m } ∧ (∀ j < n, m (f + tabEntryLen * j) = 0) ∧
      ∀ x, (∀ j < n, x ≠ f + tabEntryLen * j) → m x = s.mem x
  | 0, _ => ⟨s.mem, rfl, nofun, fun _ _ => rfl⟩
  | n + 1, hn => by
    obtain ⟨m, hrun, hz, hsame⟩ := tabZeroLoop_run hp hkeep (Nat.le_of_succ_le hn)
    obtain ⟨hd, hw⟩ := hkeep m fun x hx => hsame x fun j hj => hx j (by omega)
    have hoff : tabEntryLen * n < 4096 := by unfold tabEntryLen; omega
    have hwrite := writeVa_run (s := { s with mem := m }) 0 (translate_window hd hp hw hoff)
    refine ⟨Function.update m (f + tabEntryLen * n) 0, ?_, fun j hj => ?_, fun x hx => ?_⟩
    · rw [tabZeroLoop, Exec.bind_ok hrun, hwrite]
    · by_cases e : j = n
      · rw [e, Function.update_self]
      · rw [Function.update_of_ne (by unfold tabEntryLen; omega)]
        exact hz j (by omega)
    · rw [Function.update_of_ne (hx n (by omega))]
      exact hsame x fun j hj => hx j (by omega)

/-- The walk of the window does not go through a frame that is no table. -/
theorem Inv.window_keeps (h : Inv im s F) (hu : Unused im s F f) (hpage : IsPage f) (m : Words)
    (hm : ∀ x, (∀ j < 512, x ≠ f + tabEntryLen * j) → m x = (withWindow im s f).mem x) :
    Direct im m ∧ m (directTabEntry im) = f + 3 := by
  have hal := hpage.bounds.1
  obtain ⟨hnode, htree⟩ := h.tree.window (.value 3 hpage)
  constructor
  · refine htree.direct.congr fun d _ t ht _ => hm _ fun j hj => ?_
    exact h.tree.frame_ne hal hu.notTable ((hnode _).symm.trans ht) _ ⟨j, hj⟩
  · rw [hm _ fun j hj => (h.window_ne hal hu.notTable ⟨j, hj⟩).symm]
    exact withWindow_entry im s f

/-- A frame is zeroed through the window. -/
theorem tabZero_run (h : Inv im s F) (hu : Unused im s F f) (hpage : IsPage f) :
    ∃ m : Words, tabZero im directVadd (withWindow im s f) = .ok () { s with mem := m } ∧
      m (directTabEntry im) = f + 3 ∧ (∀ j : Fin 512, m (f + tabEntryLen * j) = 0) ∧
      ∀ x, (∀ j < 512, x ≠ f + tabEntryLen * j) → x ≠ directTabEntry im → m x = s.mem x := by
  obtain ⟨m, hrun, hz, hsame⟩ := tabZeroLoop_run hpage (h.window_keeps hu hpage) (le_refl 512)
  refine ⟨m, hrun, (h.window_keeps hu hpage m hsame).2, fun j => hz j j.isLt, fun x hx hne => ?_⟩
  rw [hsame x hx]
  exact Function.update_of_ne hne _ _

theorem spareFrame_nil (h : Inv im s []) : spareFrame im 0 s = .ok none s := by
  unfold spareFrame
  rw [if_pos rfl, Exec.bind_ok (mmFrameAlloc_nil h)]
  rfl

theorem spareFrame_high (h : Inv im s (f :: F)) (hp : ¬ IsPage f) :
    ∃ expr, spareFrame im 0 s = .error (.assertFail expr) s := by
  obtain ⟨expr, he⟩ := mmFrameAlloc_high h hp
  refine ⟨expr, ?_⟩
  unfold spareFrame
  rw [if_pos rfl, Exec.bind_error he]

theorem spareFrame_cons (va : Nat) (h : Inv im s (f :: F)) (hpage : IsPage f) : ∃ s', spareFrame im 0 s = .ok (some f) s' ∧
    Inv im s' F ∧ Spare im s' F f ∧ Grown im va s s' [] ∧ ∀ x, (∀ j < 512, x ≠ f + tabEntryLen * j) → s'.mem x = s.mem x := by
  obtain ⟨hpop, hu⟩ := h.pop
  have hal := hpage.bounds.1
  obtain ⟨m, hrun, hw, hz, hsame⟩ := tabZero_run hpop hu hpage
  -- the memory once the window is cleared
  have hsame' : ∀ x, (∀ j < 512, x ≠ f + tabEntryLen * j) → Function.update m (directTabEntry im) 0 x = s.mem x := by
    intro x hx
    by_cases e : x = directTabEntry im
    · rw [e, Function.update_self, h.window]
    · rw [Function.update_of_ne e]; exact hsame x hx e
  have htab : ∀ q t, node im s.mem q = some t → ∀ i : Fin 512,
      Function.update m (directTabEntry im) 0 (t + tabEntryLen * i) = s.mem (t + tabEntryLen * i) :=
    fun q t ht i => hsame' _ fun j hj => h.tree.frame_ne hal hu.notTable ht i ⟨j, hj⟩
  obtain ⟨hinv, hnode, hlook⟩ := hpop.congr (Function.update m (directTabEntry im) 0) htab fun x hx => hsame' x fun j hj e => by
    have hx4 := (hpop.frames x hx).align
    unfold tabEntryLen at e
    exact hu.notFree ((show x = f by omega) ▸ hx)
  refine ⟨_, ?_, hinv, ⟨⟨hu.frame, hu.notFree, fun q e => hu.notTable q ((hnode q).symm.trans e)⟩, hpage, fun j => ?_⟩,
    .of_same va hnode hlook htab, hsame'⟩
  · unfold spareFrame
    rw [if_pos rfl, Exec.bind_ok (mmFrameAlloc_cons h hpage)]
    show (mmPageDirectAccessSetup im f >>= fun frameVa => _) (popFrame s) = _
    rw [Exec.bind_ok (setup_run hpage hpop.window), Exec.bind_ok hrun, Exec.bind_ok (reset_run ?_)]
    · rfl
    · show tabEntryIsPresent (m (directTabEntry im)) = true
      rw [hw]
      exact (present_value hpage).1
  · show Function.update m (directTabEntry im) 0 (f + tabEntryLen * j) = 0
    rw [Function.update_of_ne (hpop.window_ne hal hu.notTable j)]
    exact hz j

/-- The frame in hand after the start of a round. -/
theorem spareFrame_ok (va : Nat) {f' : Nat} (h : Inv im s F) (hf : f = 0 ∨ Spare im s F f)
    (hrun : spareFrame im f s = .ok (some f') s') : ∃ F', Inv im s' F' ∧ Spare im s' F' f' ∧ Grown im va s s' [] := by
  rcases hf with rfl | hsp
  · cases F with
    | nil =>
      rw [spareFrame_nil h] at hrun
      cases hrun
    | cons x F =>
      by_cases hpage : IsPage x
      · obtain ⟨s₁, hrun₁, h₁, hsp, hg, -⟩ := spareFrame_cons va h hpage
        rw [hrun] at hrun₁
        cases hrun₁
        exact ⟨F, h₁, hsp, hg⟩
      · obtain ⟨e, he⟩ := spareFrame_high h hpage
        rw [hrun] at he
        cases he
  · unfold spareFrame at hrun
    rw [if_neg hsp.frame.2.1.ne'] at hrun
    cases hrun
    exact ⟨F, h, hsp, .refl im va s⟩

/-! ## A round -/

/-- The window does not hide an entry of the tree other than its own. -/
theorem withWindow_word {x : Nat} (hx : x ≠ directTabEntry im) : (withWindow im s t).mem x = s.mem x :=
  Function.update_of_ne hx _ _

theorem Inv.word_ne_window (h : Inv im s F) (hp : node im s.mem p = some t) (hne : i :: p ≠ Radix.path (key directVadd) 4) :
    t + tabEntryLen * i ≠ directTabEntry im := h.tree.word_ne h.tree.direct.node.2.2 hp hne

theorem Inv.short_ne_window (h : Inv im s F) (hp : node im s.mem p = some t) (hlen : p.length < 3) (i : Fin 512) :
    t + tabEntryLen * i ≠ directTabEntry im :=
  h.word_ne_window hp fun e => by
    have := congrArg List.length e
    rw [Radix.path_length, List.length_cons] at this
    omega

/-- Reading an entry through the window. -/
theorem readEntry_run (h : Inv im s F) (hp : node im s.mem p = some t) (hne : t + tabEntryLen * i ≠ directTabEntry im) :
    readVa im (directVadd + tabEntryLen * i) (withWindow im s t) = .ok (s.mem (t + tabEntryLen * i)) (withWindow im s t) := by
  have hpage := (h.tree.frame hp).1
  rw [readVa_run (translate_entry (Direct.withWindow h.tree hpage) hpage (withWindow_entry im s t) i), withWindow_word hne]

/-- A word of memory changed. -/
def withWord (s : PageState) (x v : Nat) : PageState := { s with mem := Function.update s.mem x v }

/-- Writing an entry through the window. -/
theorem writeEntry_run (h : Inv im s F) (hp : node im s.mem p = some t) (v : Nat) (hne : t + tabEntryLen * i ≠ directTabEntry im) :
    writeVa im (directVadd + tabEntryLen * i) v (withWindow im s t) =
      .ok () (withWindow im (withWord s (t + tabEntryLen * i) v) t) := by
  have hpage := (h.tree.frame hp).1
  rw [writeVa_run v (translate_entry (Direct.withWindow h.tree hpage) hpage (withWindow_entry im s t) i)]
  unfold withWindow withWord
  rw [Function.update_comm hne]

/-- Closing the window. -/
theorem closeWindow_run (hw : s.mem (directTabEntry im) = 0) (hp : IsPage t) :
    mmPageDirectAccessReset im (withWindow im s t) = .ok () s := by
  rw [reset_run (withWindow_present hp), withWindow_clear hw]
  rfl

theorem mapLoop_spare {lv : Nat} (hrun : spareFrame im 0 s = .ok (some f) s') (hf : f ≠ 0) :
    mapLoop im va (lv + 2) t 0 s = mapLoop im va (lv + 2) t f s' := by
  have hf' : spareFrame im f s' = .ok (some f) s' := by unfold spareFrame; rw [if_neg hf]; rfl
  rw [mapLoop, mapLoop, Exec.bind_ok hrun, Exec.bind_ok hf']

/-- The entry of a round that finds the table. -/
theorem linkTable_found (level : Nat) (h : Inv im s F) (hp : node im s.mem p = some t) (hlen : p.length < 3)
    (hc : node im s.mem (i :: p) = some c) (f : Nat) :
    linkTable im level (directVadd + tabEntryLen * i) f (withWindow im s t) = .ok f (withWindow im s t) ∧
      tabEntryIsPresent (s.mem (t + tabEntryLen * i)) = true ∧ tabEntryGetPadd (s.mem (t + tabEntryLen * i)) = c := by
  obtain ⟨-, hpres, -, hpadd⟩ := h.tree.entry_of_table hp hc
  refine ⟨?_, hpres, hpadd⟩
  unfold linkTable
  rw [Exec.bind_ok (readEntry_run h hp (h.short_ne_window hp hlen i)), if_pos hpres]
  rfl

/-- A round that finds the table. -/
theorem mapLoop_table {lv : Nat} (h : Inv im s F) (hf : f ≠ 0) (hlv : lv ≤ 2) (hp : node im s.mem p = some t)
    (hlen : p.length < 3) (hc : node im s.mem (tabIndex va (lv + 2) :: p) = some c) :
    mapLoop im va (lv + 2) t f s = mapLoop im va (lv + 1) c f s := by
  have hpage := (h.tree.frame hp).1
  have hne := h.short_ne_window hp hlen (tabIndex va (lv + 2))
  have hspare : spareFrame im f s = .ok (some f) s := by unfold spareFrame; rw [if_neg hf]; rfl
  obtain ⟨hlink, -, hpadd⟩ := linkTable_found (lv + 2) h hp hlen hc f
  rw [mapLoop, Exec.bind_ok hspare]
  show (mmPageDirectAccessSetup im t >>= fun tabVa => _) s = _
  rw [Exec.bind_ok (setup_run hpage h.window), Exec.bind_ok (vaddTabIndex_run (by omega) va _), Exec.bind_ok hlink,
    Exec.bind_ok (readEntry_run h hp hne), Exec.bind_ok (closeWindow_run h.window hpage), hpadd]

/-- The frame in hand becomes a table. -/
theorem Inv.link (h : Inv im s F) (hsp : Spare im s F f) (hp : node im s.mem p = some t) (hlen : p.length < 3)
    (hz : s.mem (t + tabEntryLen * i) = 0) :
    Inv im (withWord s (t + tabEntryLen * i) (f + 3)) F ∧
      node im (withWord s (t + tabEntryLen * i) (f + 3)).mem (i :: p) = some f ∧
      (∀ q, q ≠ i :: p → node im (withWord s (t + tabEntryLen * i) (f + 3)).mem q = node im s.mem q) ∧
      ∀ va', lookup (withWord s (t + tabEntryLen * i) (f + 3)).mem im.tab4 va' = lookup s.mem im.tab4 va' := by
  have hne := h.short_ne_window hp hlen i
  obtain ⟨⟨hn1, hn2⟩, htree, hlook⟩ := h.tree.attach (Function.update s.mem (t + tabEntryLen * i) (f + 3)) hp hlen hz
    ⟨hsp.page, hsp.frame.2.1⟩ hsp.notTable (Function.update_self ..)
    (fun j => by rw [Function.update_of_ne (h.tree.frame_ne hsp.page.bounds.1 hsp.notTable hp i j).symm]; exact hsp.zero j)
    fun q x j _ hx => Function.update_of_ne hx _ _
  refine ⟨⟨htree, ?_, h.stage, h.chain.congr fun x hx => ?_, h.nodup, h.count, h.frames, fun x hx q hq => ?_⟩, hn1, hn2, hlook⟩
  · exact (Function.update_of_ne hne.symm _ _).trans h.window
  · exact Function.update_of_ne (h.tree.frame_ne_start (h.frames x hx).align (h.notTable x hx) hp i).symm _ _
  · by_cases e : q = i :: p
    · rw [e] at hq
      exact hsp.notFree (Option.some.inj (hn1.symm.trans hq) ▸ hx)
    · exact h.notTable x hx q ((hn2 q e).symm.trans hq)

/-- The entry of a round that links the frame in hand. -/
theorem linkTable_new {level : Nat} (hlevel : 1 ≤ level ∧ level ≤ 4) (h : Inv im s F) (hsp : Spare im s F f)
    (hp : node im s.mem p = some t) (hlen : p.length < 3) (hz : s.mem (t + tabEntryLen * i) = 0) :
    linkTable im level (directVadd + tabEntryLen * i) f (withWindow im s t) =
      .ok 0 (withWindow im (withWord s (t + tabEntryLen * i) (f + 3)) t) := by
  have hne := h.short_ne_window hp hlen i
  unfold linkTable
  rw [Exec.bind_ok (readEntry_run h hp hne), hz, if_neg (by decide), Exec.bind_ok (kernelAssert_pos rfl _ _),
    Exec.bind_ok (kernelAssert_pos hsp.frame.2.1.ne' _ _), Exec.bind_ok (tabEntryInit_run hlevel hsp.page _),
    Exec.bind_ok (writeEntry_run h hp _ hne)]
  rfl

/-- The entry of a table, as the code reads it. -/
theorem tabEntryGetPadd_value (hp : IsPage f) : tabEntryGetPadd (f + 3) = f :=
  (decode_eq_table (.value 0 hp) (decode_value_table (by omega) hp)).2.2.2

/-- A round that links the frame in hand. -/
theorem mapLoop_link {lv : Nat} (h : Inv im s F) (hsp : Spare im s F f) (hlv : lv ≤ 2) (hp : node im s.mem p = some t)
    (hlen : p.length < 3) (hz : s.mem (t + tabEntryLen * tabIndex va (lv + 2)) = 0) :
    mapLoop im va (lv + 2) t f s = mapLoop im va (lv + 1) f 0 (withWord s (t + tabEntryLen * tabIndex va (lv + 2)) (f + 3)) := by
  have hpage := (h.tree.frame hp).1
  have hne := h.short_ne_window hp hlen (tabIndex va (lv + 2))
  obtain ⟨hinv, -, hn2, -⟩ := h.link hsp hp hlen hz
  have hspare : spareFrame im f s = .ok (some f) s := by unfold spareFrame; rw [if_neg hsp.frame.2.1.ne']; rfl
  have hlink := linkTable_new (show 1 ≤ lv + 2 ∧ lv + 2 ≤ 4 by omega) h hsp hp hlen hz
  have hp' := (hn2 p List.ne_cons_self).trans hp
  have hval : (withWord s (t + tabEntryLen * tabIndex va (lv + 2)) (f + 3)).mem (t + tabEntryLen * tabIndex va (lv + 2)) = f + 3 :=
    Function.update_self ..
  rw [mapLoop, Exec.bind_ok hspare]
  show (mmPageDirectAccessSetup im t >>= fun tabVa => _) s = _
  rw [Exec.bind_ok (setup_run hpage h.window), Exec.bind_ok (vaddTabIndex_run (by omega) va _), Exec.bind_ok hlink,
    Exec.bind_ok (readEntry_run hinv hp' hne), Exec.bind_ok (closeWindow_run hinv.window hpage), hval,
    tabEntryGetPadd_value hsp.page]

/-! ## The loop -/

/-- The frame in hand, as a list. -/
def hand (f : Nat) : List Nat := if f = 0 then [] else [f]

theorem hand_zero : hand 0 = [] := if_pos rfl

theorem hand_frame (hf : IsFrame f) : hand f = [f] := if_neg hf.2.1.ne'

/-- What a run of the loop of `mm_page_map` comes to from a table on the way: the table of the last level, or
an empty list. The tables it linked, the frame in hand and the list left are the frames there were. -/
def LoopEnds (im : Image) (va lv t f : Nat) (s : PageState) (F : List Nat) : Prop :=
  ∃ ok t' f' s' F' N, mapLoop im va lv t f s = .ok (ok, t', f') s' ∧ Inv im s' F' ∧ (f' = 0 ∨ Spare im s' F' f') ∧
    hand f ++ F = N ++ (hand f' ++ F') ∧ Grown im va s s' N ∧
    (ok = true → node im s'.mem (Radix.path (key va) 3) = some t') ∧ (ok = false → f' = 0 ∧ F' = [])

/-- The other end: the list holds a frame that no entry can point to. -/
def LoopStops (im : Image) (va lv t f : Nat) (s : PageState) (F : List Nat) : Prop :=
  (∃ e s', mapLoop im va lv t f s = .error e s') ∧ ∃ x ∈ F, ¬ IsPage x

/-- Linking the frame in hand as the table of the next level. -/
theorem mapLoop_grown {n d : Nat} (h : Inv im s F) (hd : n + d = 2) (hp : node im s.mem (Radix.path (key va) d) = some t)
    (hsp : Spare im s F f) (hz : s.mem (t + tabEntryLen * key va d) = 0) :
    ∃ s', mapLoop im va (n + 2) t f s = mapLoop im va (n + 1) f 0 s' ∧ Inv im s' F ∧
      node im s'.mem (Radix.path (key va) (d + 1)) = some f ∧ Grown im va s s' [f] := by
  have hkey : key va d = tabIndex va (n + 2) := by rw [key, show 4 - d = n + 2 by omega]
  have hlen : (Radix.path (key va) d).length < 3 := by rw [Radix.path_length]; omega
  have hz' := hz
  rw [hkey] at hz
  have hrun := mapLoop_link h hsp (by omega) hp hlen hz
  obtain ⟨h', hn1, hn2, hlook⟩ := h.link hsp hp hlen hz
  rw [← hkey] at hrun h' hn1 hn2 hlook
  refine ⟨_, hrun, h', hn1, hlook, fun {q x} hq => ?_, fun {q x} hq => ?_, ?_, fun {q x} hq j hne => Function.update_of_ne
    (fun e : x + tabEntryLen * j = t + tabEntryLen * key va d => hne (by rw [e]; exact hz')) _ _⟩
  · rw [hn2 q]
    · exact hq
    · rintro rfl
      obtain ⟨x', hx', hdec⟩ := Radix.node_cons.1 hq
      obtain rfl : t = x' := Option.some.inj (hp.symm.trans hx')
      unfold entries at hdec
      rw [hz', decode_zero] at hdec
      cases hdec
  · by_cases e : q = key va d :: Radix.path (key va) d
    · rw [e, hn1] at hq
      cases hq
      exact .inr ⟨List.mem_singleton_self f, d + 1, e⟩
    · exact .inl ((hn2 q e).symm.trans hq)
  · rintro x hx
    rw [List.mem_singleton.1 hx]
    exact ⟨_, hn1⟩

/-- The loop of `mm_page_map`. -/
theorem mapLoop_run (va : Nat) : ∀ {n d : Nat} {s : PageState} {F : List Nat} {t f : Nat}, n + d = 3 → Inv im s F →
    node im s.mem (Radix.path (key va) d) = some t → lookup s.mem im.tab4 va = none → (f = 0 ∨ Spare im s F f) →
    LoopEnds im va (n + 1) t f s F ∨ LoopStops im va (n + 1) t f s F := by
  intro n
  induction n with
  | zero =>
    intro d s F t f hd h hp _ hf
    obtain rfl : d = 3 := by omega
    exact .inl ⟨true, t, f, s, F, [], rfl, h, hf, rfl, .refl im va s, fun _ => hp, fun e => absurd e (by decide)⟩
  | succ n ih =>
    intro d s F t f hd h hp hnone hf
    have hkey : key va d = tabIndex va (n + 2) := by rw [key, show 4 - d = n + 2 by omega]
    have hlen : (Radix.path (key va) d).length < 3 := by rw [Radix.path_length]; omega
    -- with a frame in hand the round goes on
    have main : ∀ {s : PageState} {F : List Nat} {f : Nat}, Inv im s F → node im s.mem (Radix.path (key va) d) = some t →
        lookup s.mem im.tab4 va = none → Spare im s F f → LoopEnds im va (n + 2) t f s F ∨ LoopStops im va (n + 2) t f s F := by
      intro s F f h hp hnone hsp
      rcases h.tree.table_or_zero hnone (by omega) hp with hz | ⟨c, hc⟩
      · obtain ⟨s₁, hrun, h₁, hn1, hg₁⟩ := mapLoop_grown (n := n) h (by omega) hp hsp hz
        rcases ih (d := d + 1) (by omega) h₁ hn1 ((hg₁.lookup va).trans hnone) (.inl rfl) with
          ⟨ok, t', f', s', F', N, hrun', h', hf', hF, hg, hok⟩ | ⟨⟨e, s', hrun'⟩, hx⟩
        · rw [hand_zero, List.nil_append] at hF
          refine .inl ⟨ok, t', f', s', F', f :: N, hrun.trans hrun', h', hf', ?_, hg₁.trans hg, hok⟩
          rw [hand_frame hsp.frame, hF]
          rfl
        · exact .inr ⟨⟨e, s', hrun.trans hrun'⟩, hx⟩
      · have hc' := hc
        rw [Radix.path, hkey] at hc'
        have hrun := mapLoop_table h hsp.frame.2.1.ne' (by omega) hp hlen hc'
        rcases ih (by omega) h hc hnone (.inr hsp) with
          ⟨ok, t', f', s', F', N, hrun', h', hf', hF, hg, hok⟩ | ⟨⟨e, s', hrun'⟩, hx⟩
        · exact .inl ⟨ok, t', f', s', F', N, hrun.trans hrun', h', hf', hF, hg, hok⟩
        · exact .inr ⟨⟨e, s', hrun.trans hrun'⟩, hx⟩
    rcases hf with rfl | hsp
    · cases F with
      | nil =>
        refine .inl ⟨false, t, 0, s, [], [], ?_, h, .inl rfl, rfl, .refl im va s,
          fun e => absurd e (by decide), fun _ => ⟨rfl, rfl⟩⟩
        rw [mapLoop, Exec.bind_ok (spareFrame_nil h)]
        rfl
      | cons f F =>
        by_cases hpage : IsPage f
        · obtain ⟨s₁, hrun, h₁, hsp, hg₁, -⟩ := spareFrame_cons va h hpage
          have hrun : mapLoop im va (n + 2) t 0 s = mapLoop im va (n + 2) t f s₁ := mapLoop_spare hrun hsp.frame.2.1.ne'
          rcases main h₁ (hg₁.old hp) ((hg₁.lookup va).trans hnone) hsp with
            ⟨ok, t', f', s', F', N, hrun', h', hf', hF, hg, hok⟩ | ⟨⟨e, s', hrun'⟩, x, hx, hlow⟩
          · rw [hand_frame hsp.frame] at hF
            exact .inl ⟨ok, t', f', s', F', N, hrun.trans hrun', h', hf', hF, hg₁.trans hg, hok⟩
          · exact .inr ⟨⟨e, s', hrun.trans hrun'⟩, x, List.mem_cons_of_mem _ hx, hlow⟩
        · obtain ⟨expr, he⟩ := spareFrame_high h hpage
          refine .inr ⟨⟨.assertFail expr, s, ?_⟩, f, List.mem_cons_self .., hpage⟩
          rw [mapLoop, Exec.bind_error he]
    · exact main h hp hnone hsp

/-! ## The leaf -/

/-- Writing a leaf entry that was zero. -/
theorem Inv.leaf (h : Inv im s F) (hp : node im s.mem (Radix.path (key va) 3) = some t)
    (hz : s.mem (t + tabEntryLen * key va 3) = 0) (hva : ¬ SamePage va directVadd) {pa : Nat} (hpa : IsPage pa) :
    Inv im (withWord s (t + tabEntryLen * key va 3) (pa + 3)) F ∧
      (∀ q, node im (withWord s (t + tabEntryLen * key va 3) (pa + 3)).mem q = node im s.mem q) ∧
      (∀ va', SamePage va' va → lookup (withWord s (t + tabEntryLen * key va 3) (pa + 3)).mem im.tab4 va' =
        some ⟨pa, true, false⟩) ∧
      ∀ va', ¬ SamePage va' va → lookup (withWord s (t + tabEntryLen * key va 3) (pa + 3)).mem im.tab4 va' =
        lookup s.mem im.tab4 va' := by
  have hself : (withWord s (t + tabEntryLen * key va 3) (pa + 3)).mem (t + tabEntryLen * key va 3) = pa + 3 :=
    Function.update_self ..
  have hdec : decode 3 (pa + 3) = .leaf ⟨pa, true, false⟩ := decode_value_leaf le_rfl hpa
  obtain ⟨hnode, htree, hlook⟩ := h.tree.set (withWord s (t + tabEntryLen * key va 3) (pa + 3)).mem hp
    (by rw [hz, decode_zero]; simp) (by rw [hself, Radix.path_length, hdec]; simp) (by rw [hself]; exact .value _ hpa)
    fun q x j _ hx => Function.update_of_ne hx _ _
  rw [Radix.path_length] at hlook
  refine ⟨⟨htree, ?_, h.stage, h.chain.congr fun x hx => ?_, h.nodup, h.count, h.frames, fun x hx q hq => ?_⟩, hnode,
    fun va' hs => ?_, fun va' hs => hlook va' fun e => hs (samePage_path.2 e)⟩
  · refine (Function.update_of_ne (h.word_ne_window hp fun e => ?_).symm _ _).trans h.window
    exact hva (samePage_path.2 e)
  · exact Function.update_of_ne (h.tree.frame_ne_start (h.frames x hx).align (h.notTable x hx) hp _).symm _ _
  · exact h.notTable x hx q ((hnode q).symm.trans hq)
  · rw [lookup_samePage hs]
    refine Radix.walk_eq_some.2 ⟨3, by omega, t, (hnode _).trans hp, ?_⟩
    show decode 3 _ = _
    rw [hself, hdec]

/-- The entry of a page without translation in a table of the last level. -/
theorem Inv.leaf_zero (h : Inv im s F) (hnone : lookup s.mem im.tab4 va = none)
    (hp : node im s.mem (Radix.path (key va) 3) = some t) : s.mem (t + tabEntryLen * key va 3) = 0 := by
  rcases h.tree.table_or_zero hnone (by omega) hp with hz | ⟨c, hc⟩
  · exact hz
  · have := h.tree.length_lt hc
    rw [Radix.path_length] at this
    omega

theorem mapLeaf_run (h : Inv im s F) (hp : node im s.mem (Radix.path (key va) 3) = some t)
    (hz : s.mem (t + tabEntryLen * key va 3) = 0) (hva : ¬ SamePage va directVadd) {pa : Nat} (hpa : IsPage pa) :
    mapLeaf im va pa t s = .ok () (withWord s (t + tabEntryLen * key va 3) (pa + 3)) := by
  have hpage := (h.tree.frame hp).1
  have hne := h.word_ne_window hp fun e => hva (samePage_path.2 e)
  have hclose := closeWindow_run (h.leaf hp hz hva hpa).1.window hpage
  have hkey : tabIndex va 1 = key va 3 := rfl
  unfold mapLeaf
  rw [Exec.bind_ok (setup_run hpage h.window), Exec.bind_ok (vaddTabIndex_run (by omega) va _), hkey,
    Exec.bind_ok (readEntry_run h hp hne), Exec.bind_ok (kernelAssert_pos hz _ _),
    Exec.bind_ok (tabEntryInit_run (by omega) hpa _), Exec.bind_ok (writeEntry_run h hp _ hne)]
  exact hclose

/-! ## mm_page_map -/

theorem directAccessIsReset_run (hw : s.mem (directTabEntry im) = 0) : directAccessIsReset im s = .ok true s := by
  unfold directAccessIsReset
  rw [Exec.bind_ok (Exec.get_run s), hw, if_neg (by decide), Exec.bind_ok (kernelAssert_pos rfl _ _)]
  rfl

/-- What a successful `mm_page_map` does: the tables `N` were linked, the page is mapped and no other
translation changed; no entry that was there is gone and no new table is empty. -/
structure Mapped (im : Image) (va pa : Nat) (s s' : PageState) (N : List Nat) : Prop where
  here : ∀ va', SamePage va' va → lookup s'.mem im.tab4 va' = some ⟨pa, true, false⟩
  elsewhere : ∀ va', ¬ SamePage va' va → lookup s'.mem im.tab4 va' = lookup s.mem im.tab4 va'
  old : ∀ {q t}, node im s.mem q = some t → node im s'.mem q = some t
  new : ∀ {q t}, node im s'.mem q = some t → node im s.mem q = some t ∨ t ∈ N
  linked : ∀ t ∈ N, ∃ q, node im s'.mem q = some t
  kept : ∀ {q t}, node im s.mem q = some t → ∀ i : Fin 512, s.mem (t + tabEntryLen * i) ≠ 0 →
    s'.mem (t + tabEntryLen * i) ≠ 0
  filled : ∀ {q t}, node im s'.mem q = some t → t ∈ N → ∃ i : Fin 512, s'.mem (t + tabEntryLen * i) ≠ 0

/-- The end of `mm_page_map`: a frame left in hand goes back. -/
theorem returnHand_run (h : Inv im s F) (hf : f = 0 ∨ Unused im s F f ∧ IsPage f) :
    ∃ s', (if f ≠ 0 then returnFrame im f else pure () : PageM Unit) s = .ok () s' ∧ Inv im s' (hand f ++ F) ∧
      (∀ q, node im s'.mem q = node im s.mem q) ∧ (∀ va, lookup s'.mem im.tab4 va = lookup s.mem im.tab4 va) ∧
      ∀ q t, node im s.mem q = some t → ∀ i : Fin 512, s'.mem (t + tabEntryLen * i) = s.mem (t + tabEntryLen * i) := by
  rcases hf with rfl | ⟨hu, hpage⟩
  · exact ⟨s, rfl, by rw [hand_zero]; exact h, fun _ => rfl, fun _ => rfl, fun _ _ _ _ => rfl⟩
  · obtain ⟨h1, h2, h3⟩ := h.push hu
    refine ⟨pushFrame s f, ?_, by rw [hand_frame hu.frame]; exact h1, h2, h3, fun q t ht i => ?_⟩
    · rw [if_pos hu.frame.2.1.ne']
      exact returnFrame_run h hu hpage
    · exact Function.update_of_ne (h.tree.frame_ne_start hu.frame.align hu.notTable ht i) _ _

/-- What `mm_page_map` leaves: its tables come from the front of the free list; it mapped the page, or failed
with the list empty. -/
def MapEnds (im : Image) (va pa : Nat) (s : PageState) (F : List Nat) (ok : Bool) (s' : PageState) : Prop :=
  ∃ F' N, Inv im s' F' ∧ F = N ++ F' ∧ (ok = false → F' = [] ∧ Grown im va s s' N) ∧
    (ok = true → Mapped im va pa s s' N)

/-- How many of the last `n` tables on the way of `va` are not there. -/
def missingTables (im : Image) (m : Words) (va : Nat) : Nat → Nat
  | 0 => 0
  | n + 1 => (if node im m (Radix.path (key va) (3 - n)) = none then 1 else 0) + missingTables im m va n

theorem missingTables_le (m : Words) (va : Nat) : ∀ n, missingTables im m va n ≤ n
  | 0 => le_rfl
  | n + 1 => by
    have := missingTables_le m va n
    unfold missingTables
    split <;> omega

/-- The depths of the tables that are missing. -/
theorem missingTables_eq (m : Words) (va : Nat) :
    missingTables im m va 3 = ([1, 2, 3].filter fun d => node im m (Radix.path (key va) d) = none).length := by
  simp only [missingTables, List.filter]
  by_cases h1 : node im m (Radix.path (key va) 1) = none <;> by_cases h2 : node im m (Radix.path (key va) 2) = none <;>
    by_cases h3 : node im m (Radix.path (key va) 3) = none <;> simp [h1, h2, h3]

/-- No more tables are linked for a page than were missing. -/
theorem Grown.length_le {N F' : List Nat} (hg : Grown im va s s' N) (h : Inv im s F) (h' : Inv im s' F') (hF : N ⊆ F)
    (hnd : N.Nodup) : N.length ≤ missingTables im s.mem va 3 := by
  have hsub : N ⊆ ([1, 2, 3].filter fun d => node im s.mem (Radix.path (key va) d) = none).filterMap fun d =>
      node im s'.mem (Radix.path (key va) d) := by
    intro x hx
    obtain ⟨q, hq⟩ := hg.linked x hx
    rcases hg.new hq with hq | ⟨-, d, rfl⟩
    · exact absurd hq (h.notTable x (hF hx) q)
    · have hd := h'.tree.length_lt hq
      rw [Radix.path_length] at hd
      have h0 : d ≠ 0 := by
        rintro rfl
        exact h.notTable x (hF hx) [] hq
      have hnone : node im s.mem (Radix.path (key va) d) = none := by
        refine Option.eq_none_iff_forall_ne_some.2 fun y hy => ?_
        obtain rfl : x = y := Option.some.inj (hq.symm.trans (hg.old hy))
        exact h.notTable x (hF hx) _ hy
      refine List.mem_filterMap.2 ⟨d, List.mem_filter.2 ⟨?_, by simpa using hnone⟩, hq⟩
      simp only [List.mem_cons, List.not_mem_nil]
      omega
  rw [missingTables_eq]
  exact (List.subperm_of_subset hnd hsub).length_le.trans (List.length_filterMap_le ..)

/-- `mm_page_map` of a page without translation returns and uses no more frames than tables are missing, or the list
holds a frame that no entry can point to. -/
theorem mmPageMap_run (h : Inv im s F) (hal : va % 4096 = 0) (hva : ¬ SamePage va directVadd)
    (hnone : lookup s.mem im.tab4 va = none) {pa : Nat} (hpa : IsPage pa) :
    (∃ ok s', mmPageMap im va pa s = .ok ok s' ∧ MapEnds im va pa s F ok s' ∧
      s.freeCount ≤ s'.freeCount + missingTables im s.mem va 3) ∨
      (∃ e s', mmPageMap im va pa s = .error e s') ∧ ∃ x ∈ F, ¬ IsPage x := by
  have hal1 : mmAlignCheck va pageSize4K = true := mmAlignCheck_iff.2 hal
  have hal2 : mmAlignCheck pa pageSize4K = true := mmAlignCheck_iff.2 hpa.1
  rcases mapLoop_run va (n := 3) (d := 0) rfl h rfl hnone (.inl rfl) with
    ⟨ok, t, f, s₁, F₁, N, hrun, h₁, hf, hF, hg, hok, hfail⟩ | ⟨⟨e, s₁, hrun⟩, hx⟩
  case inr =>
    refine .inr ⟨⟨e, s₁, ?_⟩, hx⟩
    unfold mmPageMap
    rw [Exec.bind_ok (kernelAssert_pos hal1 _ s), Exec.bind_ok (kernelAssert_pos hal2 _ s), Exec.bind_error hrun]
  refine .inl ?_
  rw [hand_zero, List.nil_append] at hF
  have hreset := directAccessIsReset_run h₁.window
  have hcount : F.length ≤ (hand f ++ F₁).length + missingTables im s.mem va 3 := by
    have hle := hg.length_le h h₁ (fun x hx => hF ▸ List.mem_append_left _ hx) (List.Nodup.of_append_left (hF ▸ h.nodup))
    rw [hF, List.length_append]
    omega
  cases ok with
  | false =>
    obtain ⟨rfl, rfl⟩ := hfail rfl
    refine ⟨false, s₁, ?_, ⟨[], N, h₁, by rw [hF, hand_zero]; rfl, fun _ => ⟨rfl, hg⟩, nofun⟩, ?_⟩
    · unfold mmPageMap
      rw [Exec.bind_ok (kernelAssert_pos hal1 _ s), Exec.bind_ok (kernelAssert_pos hal2 _ s), Exec.bind_ok hrun,
        Exec.bind_ok hreset, Exec.bind_ok (kernelAssert_pos rfl _ _)]
      rfl
    · rw [h.count, h₁.count]
      exact hcount
  | true =>
    have ht := hok rfl
    have hz := h₁.leaf_zero ((hg.lookup va).trans hnone) ht
    obtain ⟨h₂, hnode₂, hhere, helse⟩ := h₁.leaf ht hz hva hpa
    have hf₂ : f = 0 ∨ Unused im (withWord s₁ (t + tabEntryLen * key va 3) (pa + 3)) F₁ f ∧ IsPage f :=
      hf.imp_right fun hs => ⟨⟨hs.frame, hs.notFree, fun q e => hs.notTable q ((hnode₂ q).symm.trans e)⟩, hs.page⟩
    obtain ⟨s₃, hrun₃, h₃, hnode₃, hlook₃, hwords₃⟩ := returnHand_run h₂ hf₂
    have hnode : ∀ q, node im s₃.mem q = node im s₁.mem q := fun q => (hnode₃ q).trans (hnode₂ q)
    -- an entry of the tables before the leaf was written
    have hword : ∀ {q x} (i : Fin 512), node im s₁.mem q = some x → s₁.mem (x + tabEntryLen * i) ≠ 0 →
        s₃.mem (x + tabEntryLen * i) = s₁.mem (x + tabEntryLen * i) := by
      intro q x i hq hne
      rw [hwords₃ q x ((hnode₂ q).trans hq) i]
      exact Function.update_of_ne (fun e : x + tabEntryLen * i = t + tabEntryLen * key va 3 => hne (by rw [e]; exact hz)) _ _
    refine ⟨true, s₃, ?_, ⟨hand f ++ F₁, N, h₃, hF, nofun, fun _ => ⟨fun va' hs => (hlook₃ va').trans (hhere va' hs),
      fun va' hs => ((hlook₃ va').trans (helse va' hs)).trans (hg.lookup va'), fun hq => (hnode _).trans (hg.old hq),
      fun hq => (hg.new ((hnode _).symm.trans hq)).imp_right And.left, fun x hx => ?_, fun hq i hne => ?_, fun {q x} hq hx => ?_⟩⟩,
      by rw [h.count, h₃.count]; exact hcount⟩
    · unfold mmPageMap
      rw [Exec.bind_ok (kernelAssert_pos hal1 _ s), Exec.bind_ok (kernelAssert_pos hal2 _ s), Exec.bind_ok hrun,
        Exec.bind_ok hreset, Exec.bind_ok (kernelAssert_pos rfl _ _), if_pos rfl, Exec.bind_ok (mapLeaf_run h₁ ht hz hva hpa),
        Exec.bind_ok hrun₃]
      rfl
    · obtain ⟨q, hq⟩ := hg.linked x hx
      exact ⟨q, (hnode q).trans hq⟩
    · have e := hg.words hq i hne
      rw [hword i (hg.old hq) (e ▸ hne), e]
      exact hne
    · -- a new table lies on the way of the page, so it has an entry for it
      have hq₁ := (hnode q).symm.trans hq
      rcases hg.new hq₁ with hold | ⟨-, d, rfl⟩
      · exact absurd hold (h.notTable x (by rw [hF]; exact List.mem_append_left _ hx) q)
      · have hd := h₁.tree.length_lt hq₁
        rw [Radix.path_length] at hd
        refine ⟨key va d, ?_⟩
        rcases Nat.lt_or_eq_of_le (Nat.le_of_lt_succ hd) with hlt | rfl
        · obtain ⟨c, hc⟩ := Radix.node_suffix (Radix.path_suffix (key va) (Nat.succ_le_of_lt hlt)) ht
          obtain ⟨x', hx', hdec⟩ := Radix.node_cons.1 hc
          obtain rfl : x = x' := Option.some.inj (hq₁.symm.trans hx')
          have hne : s₁.mem (x + tabEntryLen * key va d) ≠ 0 := by
            intro e
            unfold entries at hdec
            rw [e, decode_zero] at hdec
            cases hdec
          rw [hword _ hq₁ hne]
          exact hne
        · obtain rfl : x = t := Option.some.inj (hq₁.symm.trans ht)
          rw [hwords₃ _ x ((hnode₂ _).trans hq₁)]
          show Function.update _ _ _ _ ≠ 0
          rw [Function.update_self]
          omega

theorem mmPageMap_ok (h : Inv im s F) (hal : va % 4096 = 0) (hva : ¬ SamePage va directVadd)
    (hnone : lookup s.mem im.tab4 va = none) {pa : Nat} (hpa : IsPage pa) {ok : Bool}
    (hrun : mmPageMap im va pa s = .ok ok s') : MapEnds im va pa s F ok s' := by
  rcases mmPageMap_run h hal hva hnone hpa with ⟨ok', s₁, hrun', hends, -⟩ | ⟨⟨e, s₁, hrun'⟩, -⟩
  · rw [hrun] at hrun'
    cases hrun'
    exact hends
  · rw [hrun] at hrun'
    cases hrun'

/-- `mm_page_map` succeeds when there are frames to spare. -/
theorem mmPageMap_true (h : Inv im s F) (hal : va % 4096 = 0) (hva : ¬ SamePage va directVadd)
    (hnone : lookup s.mem im.tab4 va = none) {pa : Nat} (hpa : IsPage pa) (hlow : ∀ x ∈ F, IsPage x) (hlen : 3 < F.length) :
    ∃ s' F' N, mmPageMap im va pa s = .ok true s' ∧ Inv im s' F' ∧ F = N ++ F' ∧ N.length ≤ 3 ∧ Mapped im va pa s s' N := by
  rcases mmPageMap_run h hal hva hnone hpa with ⟨ok, s', hrun, ⟨F', N, h', hF, hfail, hok⟩, hcount⟩ | ⟨-, x, hx, hhigh⟩
  · have hN : N.length ≤ 3 := by
      have : missingTables im s.mem va 3 ≤ 3 := missingTables_le s.mem va 3
      rw [h.count, h'.count, hF, List.length_append] at hcount
      omega
    cases ok with
    | true => exact ⟨s', F', N, hrun, h', hF, hN, hok rfl⟩
    | false =>
      rw [hF, (hfail rfl).1, List.append_nil] at hlen
      omega
  · exact absurd (hlow x hx) hhigh

end Cing.Page
