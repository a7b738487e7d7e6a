/-
When `mm_page_map` fails, and what it leaves then. It wants a frame in hand at the start of each round,
also of a round that finds its table; so it fails with fewer frames than tables to create, and with no
frame at all. It takes no link back: the frames it got before the list was empty stay linked as tables.
-/
import Cing.Mm.Page.Restore

namespace Cing.Page

open Linked

variable {im : Image} {s s' : PageState} {F : List Nat} {f t va pa : Nat}

/-! ## Tables that are missing -/

theorem missingTables_congr {m m' : Words} : ∀ {n : Nat}, (∀ k < n, node im m' (Radix.path (key va) (3 - k)) = none ↔
    node im m (Radix.path (key va) (3 - k)) = none) → missingTables im m' va n = missingTables im m va n
  | 0, _ => rfl
  | n + 1, h => by
    rw [missingTables, missingTables, missingTables_congr fun k hk => h k (by omega)]
    simp only [h n (by omega)]

/-- Below a table that is missing all are. -/
theorem missingTables_all {m : Words} : ∀ {n : Nat}, n ≤ 3 → node im m (Radix.path (key va) (3 - n)) = none →
    missingTables im m va n = n
  | 0, _, _ => rfl
  | n + 1, hn, h => by
    have hnone : node im m (Radix.path (key va) (3 - n)) = none := by
      refine Option.eq_none_iff_forall_ne_some.2 fun x hx => ?_
      obtain ⟨y, hy⟩ := Radix.node_suffix (Radix.path_suffix (key va) (show 3 - (n + 1) ≤ 3 - n by omega)) hx
      cases h.symm.trans hy
    rw [missingTables, if_pos hnone, missingTables_all (by omega) hnone]
    omega

/-- The tables linked elsewhere were not among those missing. -/
theorem Grown.missing {N : List Nat} {n : Nat} (hg : Grown im va s s' N)
    (hN : ∀ k < n, ∀ x ∈ N, node im s'.mem (Radix.path (key va) (3 - k)) ≠ some x) :
    missingTables im s'.mem va n = missingTables im s.mem va n := by
  refine missingTables_congr fun k hk => ?_
  constructor
  · intro hnone
    refine Option.eq_none_iff_forall_ne_some.2 fun x hx => ?_
    rw [hg.old hx] at hnone
    cases hnone
  · intro hnone
    refine Option.eq_none_iff_forall_ne_some.2 fun x hx => ?_
    rcases hg.new hx with hx' | ⟨hx', -⟩
    · rw [hnone] at hx'
      cases hx'
    · exact hN k hk x hx' hx

/-! ## The loop -/

/-- The loop ends for want of a frame. -/
def LoopFails (im : Image) (va lv t f : Nat) (s : PageState) : Prop :=
  ∃ t' f' s', mapLoop im va lv t f s = .ok (false, t', f') s'

/-- The loop fails exactly if the frames, the one in hand included, are fewer than the tables that are
missing, or if there is none at all. -/
theorem mapLoop_fails (va : Nat) : ∀ {n d : Nat} {s : PageState} {F : List Nat} {t f : Nat}, n + d = 3 → Inv im s F →
    node im s.mem (Radix.path (key va) d) = some t → lookup s.mem im.tab4 va = none → (f = 0 ∨ Spare im s F f) →
    (LoopFails im va (n + 1) t f s ↔
      0 < n ∧ (hand f ++ F).length < max 1 (missingTables im s.mem va n) ∧ ∀ x ∈ F, IsPage x) := by
  intro n
  induction n with
  | zero =>
    intro d s F t f _ _ _ _ _
    constructor
    · rintro ⟨t', f', s', hrun⟩
      cases hrun
    · rintro ⟨h0, -⟩
      omega
  | succ n ih =>
    intro d s F t f hd h hp hnone hf
    obtain rfl : d = 2 - n := by omega
    have hn : n ≤ 2 := by omega
    have hkey : key va (2 - n) = tabIndex va (n + 2) := by rw [key, show 4 - (2 - n) = n + 2 by omega]
    have hlen : (Radix.path (key va) (2 - n)).length < 3 := by rw [Radix.path_length]; omega
    have hnext : 2 - n + 1 = 3 - n := by omega
    -- with a frame in hand the round goes on
    have main : ∀ {s : PageState} {F : List Nat} {f : Nat}, Inv im s F → node im s.mem (Radix.path (key va) (2 - n)) = some t →
        lookup s.mem im.tab4 va = none → Spare im s F f → (LoopFails im va (n + 2) t f s ↔
          F.length + 1 < max 1 (missingTables im s.mem va (n + 1)) ∧ ∀ x ∈ F, IsPage x) := by
      intro s F f h hp hnone hsp
      rcases h.tree.table_or_zero hnone (by omega) hp with hz | ⟨c, hc⟩
      · obtain ⟨s₁, hrun, h₁, hn1, hg₁⟩ := mapLoop_grown (n := n) h (by omega) hp hsp hz
        have hmiss : node im s.mem (Radix.path (key va) (3 - n)) = none := hnext ▸ node_eq_none hp hz
        have hrest : missingTables im s₁.mem va n = missingTables im s.mem va n := by
          refine hg₁.missing fun k hk x hx hx' => ?_
          rw [List.mem_singleton.1 hx] at hx'
          have := congrArg List.length (h₁.tree.inj hn1 hx')
          rw [Radix.path_length, Radix.path_length] at this
          omega
        have ih := ih (d := 3 - n) (by omega) h₁ (hnext ▸ hn1) ((hg₁.lookup va).trans hnone) (.inl rfl)
        rw [hand_zero, List.nil_append, hrest, missingTables_all (by omega) hmiss] at ih
        unfold LoopFails at ih ⊢
        rw [hrun, ih, missingTables, if_pos hmiss, missingTables_all (by omega) hmiss]
        constructor
        · rintro ⟨h0, hlt, hpage⟩; exact ⟨by omega, hpage⟩
        · rintro ⟨hlt, hpage⟩; exact ⟨by omega, by omega, hpage⟩
      · have hc' := hc
        rw [Radix.path, hkey] at hc'
        have hrun := mapLoop_table h hsp.frame.2.1.ne' hn hp hlen hc'
        rw [hnext] at hc
        have ih := ih (d := 3 - n) (by omega) h hc hnone (.inr hsp)
        rw [hand_frame hsp.frame, List.singleton_append, List.length_cons] at ih
        unfold LoopFails at ih ⊢
        rw [hrun, ih, missingTables, if_neg (by rw [hc]; simp), Nat.zero_add]
        constructor
        · rintro ⟨h0, hlt, hpage⟩; exact ⟨hlt, hpage⟩
        · rintro ⟨hlt, hpage⟩
          refine ⟨Nat.pos_of_ne_zero ?_, hlt, hpage⟩
          rintro rfl
          rw [missingTables] at hlt
          omega
    rcases hf with rfl | hsp
    · cases F with
      | nil =>
        refine ⟨fun _ => ⟨by omega, by rw [hand_zero, List.append_nil, List.length_nil]; omega, List.forall_mem_nil _⟩,
          fun _ => ⟨t, 0, s, ?_⟩⟩
        rw [mapLoop, Exec.bind_ok (spareFrame_nil h)]
        rfl
      | cons f F =>
        by_cases hpage : IsPage f
        · obtain ⟨s₁, hrun, h₁, hsp, hg₁, -⟩ := spareFrame_cons va h hpage
          have main := main h₁ (hg₁.old hp) ((hg₁.lookup va).trans hnone) hsp
          rw [hg₁.missing fun _ _ x hx => absurd hx List.not_mem_nil] at main
          rw [LoopFails, mapLoop_spare hrun hsp.frame.2.1.ne', ← LoopFails, main, hand_zero, List.nil_append, List.length_cons,
            List.forall_mem_cons]
          exact ⟨fun hlt => ⟨by omega, hlt.1, hpage, hlt.2⟩, fun hlt => ⟨hlt.2.1, hlt.2.2.2⟩⟩
        · obtain ⟨e, he⟩ := spareFrame_high h hpage
          refine ⟨?_, fun hx => absurd (hx.2.2 f (List.mem_cons_self ..)) hpage⟩
          rintro ⟨t', f', s', hrun⟩
          rw [mapLoop, Exec.bind_error he] at hrun
          cases hrun
    · rw [main h hp hnone hsp, hand_frame hsp.frame, List.singleton_append, List.length_cons]
      exact ⟨fun hlt => ⟨by omega, hlt⟩, fun hlt => hlt.2⟩

/-! ## A failed call -/

/-- `mm_page_map` fails exactly if its loop does, and leaves what the loop left. -/
theorem mmPageMap_false (h : Inv im s F) (hal : va % 4096 = 0) (hnone : lookup s.mem im.tab4 va = none) (hpa : pa % 4096 = 0) :
    mmPageMap im va pa s = .ok false s' ↔ ∃ t f, mapLoop im va 4 im.tab4 0 s = .ok (false, t, f) s' := by
  have hal1 : mmAlignCheck va pageSize4K = true := mmAlignCheck_iff.2 hal
  have hal2 : mmAlignCheck pa pageSize4K = true := mmAlignCheck_iff.2 hpa
  unfold mmPageMap
  rw [Exec.bind_ok (kernelAssert_pos hal1 _ s), Exec.bind_ok (kernelAssert_pos hal2 _ s)]
  rcases mapLoop_run va (n := 3) (d := 0) rfl h rfl hnone (.inl rfl) with
    ⟨ok, t, f, s₁, F₁, N, hrun, h₁, -, -, -, -, hfail⟩ | ⟨⟨e, s₁, hrun⟩, -⟩
  · rw [Exec.bind_ok hrun, hrun, Exec.bind_ok (directAccessIsReset_run h₁.window), Exec.bind_ok (kernelAssert_pos rfl _ _)]
    cases ok with
    | false =>
      obtain ⟨rfl, -⟩ := hfail rfl
      constructor
      · intro hs
        cases hs
        exact ⟨t, 0, rfl⟩
      · rintro ⟨t', f', hs⟩
        cases hs
        rfl
    | true =>
      constructor
      · intro hs
        obtain ⟨u, s₂, -, hs⟩ := Exec.bind_eq_ok.1 hs
        obtain ⟨w, s₃, -, hs⟩ := Exec.bind_eq_ok.1 hs
        cases hs
      · rintro ⟨t', f', hs⟩
        cases hs
  · rw [Exec.bind_error hrun, hrun]
    constructor
    · intro hs
      cases hs
    · rintro ⟨t', f', hs⟩
      cases hs

/-- A failed call linked all the frames of the list. -/
theorem mmPageMap_grown (h : Inv im s F) (hal : va % 4096 = 0) (hnone : lookup s.mem im.tab4 va = none) (hpa : pa % 4096 = 0)
    (hs : mmPageMap im va pa s = .ok false s') : Inv im s' [] ∧ Grown im va s s' F := by
  obtain ⟨t, f, hrun⟩ := (mmPageMap_false h hal hnone hpa).1 hs
  rcases mapLoop_run va (n := 3) (d := 0) rfl h rfl hnone (.inl rfl) with
    ⟨ok, t', f', s₁, F₁, N, hrun', h₁, -, hF, hg, -, hfail⟩ | ⟨⟨e, s₁, hrun'⟩, -⟩
  · rw [hrun] at hrun'
    cases hrun'
    obtain ⟨rfl, rfl⟩ := hfail rfl
    rw [hand_zero, List.nil_append] at hF
    rw [hF, List.append_nil, List.append_nil]
    exact ⟨h₁, hg⟩
  · rw [hrun] at hrun'
    cases hrun'

/-! ## Running out of frames -/

/-- `mm_frame_alloc` can be called until `n` frames are left. -/
theorem Reach.drain : ∀ {N F : List Nat} {s : PageState}, Reach im s → Inv im s (N ++ F) → (∀ f ∈ N, IsPage f) →
    ∃ s', Reach im s' ∧ Inv im s' F ∧ s'.mem = s.mem
  | [], _, s, h, hinv, _ => ⟨s, h, hinv, rfl⟩
  | f :: N, F, s, h, hinv, hp => by
    obtain ⟨hf, hp⟩ := List.forall_mem_cons.1 hp
    obtain ⟨s', h', hinv', hm⟩ := Reach.drain (.alloc h (mmFrameAlloc_cons hinv hf)) hinv.pop.1 hp
    exact ⟨s', h', hinv', hm⟩

/-- The first page of the heap lies in the same table as the window. -/
theorem heap_missing (h : Inv im s F) : missingTables im s.mem va48Heap 3 = 0 := by
  have hkey : ∀ e < 3, key va48Heap e = key directVadd e := by decide
  have hpath : ∀ d ≤ 3, Radix.path (key va48Heap) d = Radix.path (key directVadd) d :=
    fun d hd => Radix.path_congr fun e he => hkey e (by omega)
  obtain ⟨h1, h2, h3⟩ := h.tree.direct.node
  simp only [missingTables]
  rw [hpath _ (by omega), hpath _ (by omega), hpath _ (by omega), h1, h2, h3]
  rfl

/-- A machine whose last free frame is the last of `frames₀`, with no table for the page 0. -/
theorem exists_last : ∃ s, Reach image₀ s ∧ Inv image₀ s [0x405000] ∧ lookup s.mem image₀.tab4 0 = none ∧
    missingTables image₀ s.mem 0 3 = 3 := by
  obtain ⟨s₀, -, hstart, hinv, hnone, hne⟩ := exists_start
  obtain ⟨s, h, hinv', hm⟩ := Reach.drain (N := frames₀.take 5) (F := [0x405000]) (.start hstart) hinv
    fun f hf => (frames₀_spec f (List.mem_of_mem_take hf)).1.1
  refine ⟨s, h, hinv', by rw [hm]; exact hnone 0, ?_⟩
  have hpath : node image₀ s₀.mem (Radix.path (key 0) (3 - 2)) = none := by
    refine Option.eq_none_iff_forall_ne_some.2 fun t ht => ?_
    obtain ⟨va, l, -, -, hl⟩ := hinv.lookup_below hne ht (by unfold Static; decide)
    rw [hnone va] at hl
    cases hl
  rw [hm, missingTables, if_pos hpath, missingTables_all (by omega) hpath]

/-! ## When it fails -/

/-- `mm_page_map` fails exactly if the list has fewer frames than there are tables to create, or none. It stops
instead if one of them is above `VA_48_LOW_END`. -/
theorem map_fails_iff (h : Reach im s) (hal : va % 4096 = 0) (hnone : lookup s.mem im.tab4 va = none) (hpa : pa % 4096 = 0)
    (hF : Chain 0 s.mem s.freeHead F) :
    (∃ s', mmPageMap im va pa s = .ok false s') ↔
      F.length < max 1 (missingTables im s.mem va 3) ∧ ∀ f ∈ F, f ≤ va48LowEnd := by
  obtain ⟨F', h⟩ := h.inv
  obtain rfl := hF.unique h.chain
  have hpage : (∀ f ∈ F, f ≤ va48LowEnd) ↔ ∀ f ∈ F, IsPage f :=
    ⟨fun hle f hf => ⟨(h.frames f hf).1, hle f hf⟩, fun hp f hf => (hp f hf).2⟩
  have hloop := mapLoop_fails va (n := 3) (d := 0) rfl h rfl hnone (.inl rfl)
  rw [hand_zero, List.nil_append] at hloop
  rw [hpage]
  constructor
  · rintro ⟨s', hs⟩
    obtain ⟨t, f, hrun⟩ := (mmPageMap_false h hal hnone hpa).1 hs
    exact (hloop.1 ⟨t, f, s', hrun⟩).2
  · rintro ⟨hlt, hp⟩
    obtain ⟨t, f, s', hrun⟩ := hloop.2 ⟨by omega, hlt, hp⟩
    exact ⟨s', (mmPageMap_false h hal hnone hpa).2 ⟨t, f, hrun⟩⟩

theorem map_fails_iff_last : ∃ s, Reach image₀ s ∧ Chain 0 s.mem s.freeHead [0x405000] ∧ missingTables image₀ s.mem 0 3 = 3 ∧
    ∃ s', mmPageMap image₀ 0 0x400000 s = .ok false s' := by
  obtain ⟨s, h, hinv, hnone, hmiss⟩ := exists_last
  refine ⟨s, h, hinv.chain, hmiss, (map_fails_iff h rfl hnone rfl hinv.chain).2 ⟨?_, ?_⟩⟩
  · rw [hmiss]
    decide
  · decide

/-- With no frame left the call fails although no table is missing. -/
theorem map_fails_without_need : ∃ s, Reach image₀ s ∧ Chain 0 s.mem s.freeHead [] ∧ lookup s.mem image₀.tab4 va48Heap = none ∧
    ¬ SamePage va48Heap directVadd ∧ missingTables image₀ s.mem va48Heap 3 = 0 ∧
    ∃ s', mmPageMap image₀ va48Heap 0x400000 s = .ok false s' := by
  obtain ⟨s₀, -, hstart, hinv, hnone, -⟩ := exists_start
  obtain ⟨s, h, hinv, hm⟩ := Reach.drain (N := frames₀) (F := []) (.start hstart) hinv fun f hf => (frames₀_spec f hf).1.1
  have hnone : lookup s.mem image₀.tab4 va48Heap = none := by rw [hm]; exact hnone _
  have hmiss := heap_missing hinv
  refine ⟨s, h, hinv.chain, hnone, by decide, hmiss, s, (mmPageMap_false hinv (by decide) hnone rfl).2 ⟨image₀.tab4, 0, ?_⟩⟩
  rw [mapLoop, Exec.bind_ok (spareFrame_nil hinv)]
  rfl

/-! ## What it leaves -/

/-- A zero entry ends the walk. -/
theorem lookup_zero {m : Words} {d : Nat} (hd : d < 4) (ht : node im m (Radix.path (key va) d) = some t)
    (hz : m (t + tabEntryLen * key va d) = 0) : lookup m im.tab4 va = none := by
  have hend : Radix.walk (entries m) (key va) (3 - d + 1) d t = none := by
    rw [Radix.walk, entries, hz, decode_zero]
  have hstep := Radix.walk_of_node (3 - d + 1) ht
  rw [show d + (3 - d + 1) = 4 by omega] at hstep
  exact hstep.trans hend

/-- The entries that changed were zero, and link the new tables. -/
theorem Grown.entry {N F' : List Nat} {q : List (Fin 512)} (hg : Grown im va s s' N) (h' : Inv im s' F')
    (hq : node im s.mem q = some t) {i : Fin 512} (hne : s'.mem (t + tabEntryLen * i) ≠ s.mem (t + tabEntryLen * i)) :
    s.mem (t + tabEntryLen * i) = 0 ∧ ∃ d, i :: q = Radix.path (key va) d ∧ ∃ c ∈ N, node im s'.mem (i :: q) = some c := by
  have hz : s.mem (t + tabEntryLen * i) = 0 := by
    by_contra h0
    exact hne (hg.words hq i h0)
  have hq' := hg.old hq
  refine ⟨hz, ?_⟩
  cases hdec : decode q.length (s'.mem (t + tabEntryLen * i)) with
  | absent => exact absurd ((h'.tree.entry hq' i).absent_iff.1 hdec) (hz ▸ hne)
  | table c =>
    have hc : node im s'.mem (i :: q) = some c := Radix.node_cons.2 ⟨t, hq', hdec⟩
    rcases hg.new hc with hold | ⟨hN, d, hd⟩
    · obtain ⟨t', ht', hdec'⟩ := Radix.node_cons.1 hold
      obtain rfl : t = t' := Option.some.inj (hq.symm.trans ht')
      unfold entries at hdec'
      rw [hz, decode_zero] at hdec'
      cases hdec'
    · exact ⟨d, hd, c, hN, hc⟩
  | leaf l =>
    -- a leaf there would be a new translation
    have hlen := h'.tree.length_lt hq'
    obtain ⟨k, hk⟩ := Radix.exists_key 0 (i :: q)
    rw [List.length_cons, Radix.path, List.cons.injEq] at hk
    obtain ⟨va', hva⟩ := exists_va k
    have hpath : Radix.path (key va') q.length = q := (Radix.path_congr fun e he => hva e (by omega)).trans hk.2
    have hi : key va' q.length = i := (hva _ hlen).trans hk.1
    have hl : Page.lookup s'.mem im.tab4 va' = some l :=
      Radix.walk_eq_some.2 ⟨q.length, hlen, t, by rw [hpath]; exact hq', by rw [hi]; exact hdec⟩
    rw [hg.lookup, lookup_zero hlen (by rw [hpath]; exact hq) (by rw [hi]; exact hz)] at hl
    cases hl

/-- The call for the page 0 fails there. -/
theorem exists_failure : ∃ s s', Reach image₀ s ∧ Inv image₀ s [0x405000] ∧ lookup s.mem image₀.tab4 0 = none ∧
    mmPageMap image₀ 0 0x400000 s = .ok false s' := by
  obtain ⟨s, h, hinv, hnone, hmiss⟩ := exists_last
  obtain ⟨t, f, s', hrun⟩ := (mapLoop_fails 0 (n := 3) (d := 0) rfl hinv rfl hnone (.inl rfl)).2
    ⟨by omega, by rw [hmiss]; decide, by unfold IsPage; decide⟩
  exact ⟨s, s', h, hinv, hnone, (mmPageMap_false hinv rfl hnone rfl).2 ⟨t, f, hrun⟩⟩

/-- A call of `mm_page_map` that fails changes no translation. Each frame that was free is now a table, linked on the
way of the page by an entry that was zero; the tables that were there and their other entries are the same. -/
theorem map_failure_keeps (h : Reach im s) (hal : va % 4096 = 0) (hnone : lookup s.mem im.tab4 va = none) (hpa : pa % 4096 = 0)
    (hF : Chain 0 s.mem s.freeHead F) (hs : mmPageMap im va pa s = .ok false s') :
    (∀ va', lookup s'.mem im.tab4 va' = lookup s.mem im.tab4 va') ∧
    (∀ t, IsTable im s' t ↔ IsTable im s t ∨ t ∈ F) ∧
    (∀ q t, node im s.mem q = some t → node im s'.mem q = some t ∧ ∀ i : Fin 512,
      s'.mem (t + tabEntryLen * i) = s.mem (t + tabEntryLen * i) ∨ s.mem (t + tabEntryLen * i) = 0 ∧
        ∃ d, i :: q = Radix.path (key va) d ∧ ∃ c ∈ F, node im s'.mem (i :: q) = some c) ∧
    (∀ f, ¬ OnFreeList s' f) ∧ mmFrameFreeCount s' = 0 ∧ (F = [] → s' = s) := by
  obtain ⟨F', h⟩ := h.inv
  obtain rfl := hF.unique h.chain
  obtain ⟨h', hg⟩ := mmPageMap_grown h hal hnone hpa hs
  refine ⟨hg.lookup, fun t => hg.isTable, fun q t hq => ⟨hg.old hq, fun i => ?_⟩, fun f hf => ?_, h'.count, ?_⟩
  · by_cases he : s'.mem (t + tabEntryLen * i) = s.mem (t + tabEntryLen * i)
    · exact .inl he
    · exact .inr (hg.entry h' hq he)
  · have := h'.onFreeList.1 hf
    cases this
  · rintro rfl
    obtain ⟨t, f, hrun⟩ := (mmPageMap_false h hal hnone hpa).1 hs
    rw [mapLoop, Exec.bind_ok (spareFrame_nil h)] at hrun
    cases hrun
    rfl

theorem map_failure_keeps_last : ∃ s s', Reach image₀ s ∧ mmPageMap image₀ 0 0x400000 s = .ok false s' ∧
    (∀ va, lookup s'.mem image₀.tab4 va = lookup s.mem image₀.tab4 va) ∧ IsTable image₀ s' 0x405000 := by
  obtain ⟨s, s', h, hinv, hnone, hs⟩ := exists_failure
  obtain ⟨h1, h2, -⟩ := map_failure_keeps h rfl hnone rfl hinv.chain hs
  exact ⟨s, s', h, hs, h1, (h2 _).2 (.inr (List.mem_singleton_self _))⟩

/-- With one frame left and three tables missing, that frame is lost to a table that maps nothing. -/
theorem map_failure_takes_frame : ∃ s s', Reach image₀ s ∧ lookup s.mem image₀.tab4 0 = none ∧
    mmPageMap image₀ 0 0x400000 s = .ok false s' ∧ OnFreeList s 0x405000 ∧ ¬ OnFreeList s' 0x405000 ∧
    ¬ IsTable image₀ s 0x405000 ∧ IsTable image₀ s' 0x405000 ∧ mmFrameFreeCount s = 1 ∧ mmFrameFreeCount s' = 0 := by
  obtain ⟨s, s', h, hinv, hnone, hs⟩ := exists_failure
  obtain ⟨hinv', hg⟩ := mmPageMap_grown hinv rfl hnone rfl hs
  have hmem : 0x405000 ∈ [0x405000] := List.mem_singleton_self _
  refine ⟨s, s', h, hnone, hs, hinv.onFreeList.2 hmem, fun hf => ?_, fun ⟨q, hq⟩ => hinv.notTable _ hmem q hq,
    hg.isTable.2 (.inr hmem), hinv.count, hinv'.count⟩
  have := hinv'.onFreeList.1 hf
  cases this

end Cing.Page
