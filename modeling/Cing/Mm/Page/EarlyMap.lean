/-
The identity map of the early stage. `_map_early` links at most two tables, each the next frame of the
static pool, and writes one 2M entry, or returns false when the pool is used up or its uninitialised
`ok` says so. Each gigabyte has a table of its own, so the pool bounds how far the map can go.
-/
import Cing.Mm.Page.Boot
import Cing.Mm.Page.Tree

namespace Cing.Page

variable {im : Image} {s s' : PageState} {t va pa : Nat}

/-! ## Entries of 2M pages -/

theorem entry_value_2M (hp : pa % 2097152 = 0) : pa ||| 1 ||| 2 ||| 128 = pa + 131 := by
  obtain ⟨a, rfl⟩ := Nat.dvd_of_mod_eq_zero hp
  rw [Nat.or_assoc, Nat.or_assoc, show (1 ||| (2 ||| 128) : Nat) = 131 by decide, show 2097152 * a = 2 ^ 21 * a by norm_num,
    ← Nat.two_pow_add_eq_or_of_lt (by norm_num)]

theorem tabEntryInit_run_2M (hp : pa % 2097152 = 0) (hle : pa ≤ va48LowEnd) (s : PageState) :
    tabEntryInit 2 true true pa pageSize2M s = .ok (pa + 131) s := by
  have hal : mmAlignCheck pa pageSize2M = true := mmAlignCheck_iff.2 hp
  have hcheck : tabEntryCheck 2 pageSize2M s = .ok () s := by
    unfold tabEntryCheck
    rw [if_neg (by decide), if_pos rfl]
    exact kernelAssert_pos (.inr rfl) _ s
  unfold tabEntryInit
  rw [Exec.bind_ok hcheck, Exec.bind_ok (kernelAssert_pos hal _ s), Exec.bind_ok (kernelAssert_pos (.inl hle) _ s),
    ← entry_value_2M hp]
  rfl

theorem entry_2M (hp : pa % 2097152 = 0) (hle : pa ≤ va48LowEnd) :
    EntryOk 2 (pa + 131) ∧ decode 2 (pa + 131) = .leaf ⟨pa, true, true⟩ := by
  unfold va48LowEnd at hle
  have h1 : tabEntryIsPresent (pa + 131) = true := by
    unfold tabEntryIsPresent
    rw [Nat.testBit_eq_decide_div_mod_eq]
    exact decide_eq_true (by omega)
  have h2 : tabEntryIsHuge (pa + 131) = true := by
    unfold tabEntryIsHuge
    rw [Nat.testBit_eq_decide_div_mod_eq]
    exact decide_eq_true (by omega)
  have h3 : tabEntryIsWritable (pa + 131) = true := by
    unfold tabEntryIsWritable
    rw [Nat.testBit_eq_decide_div_mod_eq]
    exact decide_eq_true (by omega)
  have h4 : hwPadd (pa + 131) = pa := by rw [hwPadd_eq (by omega)]; omega
  refine ⟨.inr ⟨h1, by omega, fun _ => ⟨rfl, by omega⟩⟩, ?_⟩
  unfold decode
  rw [if_pos h1, if_neg (by omega), if_pos ⟨rfl, h2⟩, h3, h4]

/-! ## The early stage -/

/-- A frame of the pool. -/
def poolFrame (im : Image) (k : Nat) : Nat := im.earlyFramePool + k * pageSize4K

/-- Where the linker may put `_tab_4` and the pool: below `VA_48_LOW_END`, apart, and not at the null page. -/
structure EarlyPlaced (im : Image) : Prop where
  tab4 : LowFrame im.tab4
  pool : ∀ k < earlyFrameCap, LowFrame (poolFrame im k) ∧ poolFrame im k ≠ im.tab4

/-- The tables of the early mappers: frames of the pool that were handed out, none for 4K pages. -/
structure EarlyTree (im : Image) (s : PageState) : Prop where
  tables : Tables im s.mem
  stage : s.isEarlyStage = true
  count : s.earlyFrameCount ≤ earlyFrameCap
  pool : ∀ {q t}, node im s.mem q = some t → q ≠ [] → ∃ k < s.earlyFrameCount, t = poolFrame im k
  short : ∀ {q t}, node im s.mem q = some t → q.length < 3

/-- The tables in the early stage: frames of the pool that were handed out, none for 4K pages, and none on the way of
the window. -/
structure EarlyTables (im : Image) (s : PageState) : Prop where
  tables : Tables im s.mem
  stage : s.isEarlyStage = true
  count : s.earlyFrameCount ≤ earlyFrameCap
  pool : ∀ {q t}, node im s.mem q = some t → q ≠ [] → ∃ k < s.earlyFrameCount, t = poolFrame im k
  short : ∀ {q t}, node im s.mem q = some t → q.length < 3
  slot : s.mem (im.tab4 + tabEntryLen * key directVadd 0) = 0

theorem EarlyTables.tree (h : EarlyTables im s) : EarlyTree im s := ⟨h.tables, h.stage, h.count, h.pool, h.short⟩

theorem EarlyTree.with_slot (h : EarlyTree im s) (hslot : s.mem (im.tab4 + tabEntryLen * key directVadd 0) = 0) :
    EarlyTables im s :=
  ⟨h.tables, h.stage, h.count, h.pool, h.short, hslot⟩

/-- The next frame of the pool is no table. -/
theorem EarlyTree.fresh (h : EarlyTree im s) (hpl : EarlyPlaced im) (hc : s.earlyFrameCount < earlyFrameCap)
    (q : List (Fin 512)) : node im s.mem q ≠ some (poolFrame im s.earlyFrameCount) := by
  intro hq
  cases q with
  | nil => exact (hpl.pool _ hc).2 (Option.some.inj hq).symm
  | cons i q =>
    obtain ⟨k, hk, he⟩ := h.pool hq nofun
    unfold poolFrame pageSize4K at he
    omega

/-- What linking tables on the way of `va` keeps. -/
structure EarlyGrown (im : Image) (va d : Nat) (s s' : PageState) : Prop where
  lookup : ∀ va', lookup s'.mem im.tab4 va' = lookup s.mem im.tab4 va'
  old : ∀ {q t}, node im s.mem q = some t → node im s'.mem q = some t
  new : ∀ {q t}, node im s'.mem q = some t → node im s.mem q = some t ∨ q = Radix.path (key va) (d + 1)

theorem EarlyGrown.refl (im : Image) (va d : Nat) (s : PageState) : EarlyGrown im va d s s :=
  ⟨fun _ => rfl, id, .inl⟩

/-- How a round of `_map_early` ends: there was a table, the next frame of the pool became one, or the pool is used
up. -/
inductive RoundEnds (im : Image) (va d : Nat) (s : PageState) (ok : Bool) : Bool → Option Nat → PageState → Prop
  | found {c : Nat} : node im s.mem (Radix.path (key va) (d + 1)) = some c → RoundEnds im va d s ok ok (some c) s
  | linked {s' : PageState} : node im s.mem (Radix.path (key va) (d + 1)) = none →
      node im s'.mem (Radix.path (key va) (d + 1)) = some (poolFrame im s.earlyFrameCount) →
      s'.earlyFrameCount = s.earlyFrameCount + 1 → RoundEnds im va d s ok true (some (poolFrame im s.earlyFrameCount)) s'
  | usedUp : s.earlyFrameCount = earlyFrameCap → RoundEnds im va d s ok false none s

/-- The state after the next frame of the pool was linked at an entry. -/
def earlyLinked (im : Image) (s : PageState) (x : Nat) : PageState :=
  { s with mem := linked s.mem x (poolFrame im s.earlyFrameCount), earlyFrameCount := s.earlyFrameCount + 1 }

theorem EarlyTree.link (h : EarlyTree im s) (hpl : EarlyPlaced im) {d : Nat} (hd : d < 2)
    (ht : node im s.mem (Radix.path (key va) d) = some t)
    (hz : s.mem (t + tabEntryLen * key va d) = 0) (hc : s.earlyFrameCount < earlyFrameCap) :
    EarlyTree im (earlyLinked im s (t + tabEntryLen * key va d)) ∧
      EarlyGrown im va d s (earlyLinked im s (t + tabEntryLen * key va d)) ∧
      node im (earlyLinked im s (t + tabEntryLen * key va d)).mem (Radix.path (key va) (d + 1)) =
        some (poolFrame im s.earlyFrameCount) ∧ node im s.mem (Radix.path (key va) (d + 1)) = none := by
  have hlow := hpl.pool _ hc
  have hfresh := h.fresh hpl hc
  obtain ⟨⟨hn1, hn2⟩, htab, hlook⟩ := h.tables.link (i := key va d) ht (by rw [Radix.path_length]; omega) hz hlow.1 hfresh
  have hnone : node im s.mem (Radix.path (key va) (d + 1)) = none := node_eq_none ht hz
  have hcase : ∀ {q x}, node im (earlyLinked im s (t + tabEntryLen * key va d)).mem q = some x →
      node im s.mem q = some x ∨ q = Radix.path (key va) (d + 1) ∧ x = poolFrame im s.earlyFrameCount := by
    intro q x hq
    by_cases e : q = Radix.path (key va) (d + 1)
    · rw [e] at hq
      exact .inr ⟨e, Option.some.inj (hq.symm.trans hn1)⟩
    · exact .inl ((hn2 q e).symm.trans hq)
  refine ⟨⟨htab, h.stage, Nat.succ_le_of_lt hc, fun hq hne => ?_, fun hq => ?_⟩,
    ⟨hlook, fun {q x} hq => (hn2 q ?_).trans hq, fun hq => (hcase hq).imp_right And.left⟩, hn1, hnone⟩
  · rcases hcase hq with hq | ⟨-, rfl⟩
    · obtain ⟨k, hk, e⟩ := h.pool hq hne
      exact ⟨k, Nat.lt_succ_of_lt hk, e⟩
    · exact ⟨_, Nat.lt_succ_self _, rfl⟩
  · rcases hcase hq with hq | ⟨rfl, -⟩
    · exact h.short hq
    · rw [Radix.path_length]
      omega
  · rintro rfl
    have hnone' : node im s.mem (key va d :: Radix.path (key va) d) = none := hnone
    rw [hnone'] at hq
    cases hq

/-- Off the way of the window, the window's entry stays empty. -/
theorem EarlyTables.link_slot (h : EarlyTables im s) (hpl : EarlyPlaced im) {d : Nat}
    (hslot : key va 0 ≠ key directVadd 0) (ht : node im s.mem (Radix.path (key va) d) = some t)
    (hc : s.earlyFrameCount < earlyFrameCap) :
    (earlyLinked im s (t + tabEntryLen * key va d)).mem (im.tab4 + tabEntryLen * key directVadd 0) = 0 := by
  have hroot : node im s.mem [] = some im.tab4 := rfl
  have hlow := hpl.pool _ hc
  show linked s.mem _ _ _ = 0
  rw [linked_word (h.tables.align hroot) hlow.1.1.bounds.1 hlow.2.symm, Function.update_of_ne, h.slot]
  -- only a table of the first level shares its index with the slot
  refine h.tables.word_ne ht hroot fun e => ?_
  obtain ⟨e1, e2⟩ := List.cons.inj e
  have hd0 : 0 = d := by simpa using congrArg List.length e2
  rw [← hd0] at e1
  exact hslot e1.symm

/-- A round of `_map_early`, and the one entry it may have written. -/
theorem EarlyTree.table_run (h : EarlyTree im s) (hpl : EarlyPlaced im) {d : Nat} (hd : d < 2)
    (ht : node im s.mem (Radix.path (key va) d) = some t) (hnone : lookup s.mem im.tab4 va = none) (ok : Bool) :
    ∃ ok' r s', earlyTable im (4 - d) (t + tabEntryLen * key va d) ok s = .ok (ok', r) s' ∧ EarlyTree im s' ∧
      EarlyGrown im va d s s' ∧ RoundEnds im va d s ok ok' r s' ∧
      (s' = s ∨ s' = earlyLinked im s (t + tabEntryLen * key va d) ∧ s.earlyFrameCount < earlyFrameCap) := by
  unfold earlyTable
  rw [Exec.bind_ok (Exec.get_run s)]
  rcases h.tables.table_or_zero hnone (by omega) ht with hz | ⟨c, hc⟩
  · rw [hz, if_neg (by decide), Exec.bind_ok (kernelAssert_pos rfl _ s)]
    by_cases hcap : s.earlyFrameCount < earlyFrameCap
    · obtain ⟨h', hg, hn, hno⟩ := h.link hpl hd ht hz hcap
      have hlow := (hpl.pool _ hcap).1
      have halloc : mmFrameAllocEarly im s =
          .ok (some (poolFrame im s.earlyFrameCount)) { s with earlyFrameCount := s.earlyFrameCount + 1 } := by
        unfold mmFrameAllocEarly
        rw [Exec.bind_ok (Exec.get_run s), Exec.bind_ok (kernelAssert_pos h.stage _ s), if_pos hcap]
        rfl
      have hword : (earlyLinked im s (t + tabEntryLen * key va d)).mem (t + tabEntryLen * key va d) =
          poolFrame im s.earlyFrameCount + 3 := by
        show linked s.mem _ _ _ = _
        rw [linked_word (h.tables.align ht) hlow.1.bounds.1 fun e => h.fresh hpl hcap _ (e ▸ ht), Function.update_self]
      have hpadd := (decode_eq_table (.value 0 hlow.1) (decode_value_table (by omega) hlow.1)).2.2.2
      refine ⟨true, some (poolFrame im s.earlyFrameCount), _, ?_, h', hg, .linked hno hn rfl, .inr ⟨rfl, hcap⟩⟩
      rw [Exec.bind_ok halloc]
      show (kernelAssert (poolFrame im s.earlyFrameCount ≠ 0) _ >>= fun _ => _) _ = _
      rw [Exec.bind_ok (kernelAssert_pos hlow.2.ne' _ _), Exec.bind_ok (tabEntryInit_run (by omega) hlow.1 _)]
      show EStateM.Result.ok (true, some (tabEntryGetPadd ((earlyLinked im s (t + tabEntryLen * key va d)).mem
        (t + tabEntryLen * key va d)))) _ = _
      rw [hword, hpadd]
      rfl
    · have halloc : mmFrameAllocEarly im s = .ok none s := by
        unfold mmFrameAllocEarly
        rw [Exec.bind_ok (Exec.get_run s), Exec.bind_ok (kernelAssert_pos h.stage _ s), if_neg hcap]
        rfl
      refine ⟨false, none, s, ?_, h, .refl im va d s, .usedUp (le_antisymm h.count (not_lt.1 hcap)), .inl rfl⟩
      rw [Exec.bind_ok halloc]
      rfl
  · obtain ⟨-, hpres, -, hpadd⟩ := h.tables.entry_of_table ht hc
    refine ⟨ok, some c, s, ?_, h, .refl im va d s, .found hc, .inl rfl⟩
    rw [if_pos hpres, hpadd]
    rfl

theorem earlyTable_run (h : EarlyTables im s) (hpl : EarlyPlaced im) {d : Nat} (hd : d < 2)
    (hslot : key va 0 ≠ key directVadd 0) (ht : node im s.mem (Radix.path (key va) d) = some t)
    (hnone : lookup s.mem im.tab4 va = none) (ok : Bool) :
    ∃ ok' r s', earlyTable im (4 - d) (t + tabEntryLen * key va d) ok s = .ok (ok', r) s' ∧ EarlyTables im s' ∧
      EarlyGrown im va d s s' ∧ RoundEnds im va d s ok ok' r s' := by
  obtain ⟨ok', r, s', hrun, h', hg, hends, hs'⟩ := h.tree.table_run hpl hd ht hnone ok
  refine ⟨ok', r, s', hrun, h'.with_slot ?_, hg, hends⟩
  rcases hs' with rfl | ⟨rfl, hc⟩
  · exact h.slot
  · exact h.link_slot hpl hslot ht hc

/-! ## A page -/

/-- The 2M page of an address, in the low 48 bits. -/
def page2M (va : Nat) : Nat := va % 2 ^ 48 / 2097152 * 2097152

theorem path3_iff {va va' : Nat} : Radix.path (key va) 3 = Radix.path (key va') 3 ↔ page2M va = page2M va' := by
  unfold page2M
  constructor
  · intro h
    have h0 := congrArg Fin.val (Radix.path_inj h 0 (by omega))
    have h1 := congrArg Fin.val (Radix.path_inj h 1 (by omega))
    have h2 := congrArg Fin.val (Radix.path_inj h 2 (by omega))
    rw [key_val (by omega), key_val (by omega)] at h0 h1 h2
    norm_num at h0 h1 h2
    omega
  · intro h
    refine Radix.path_congr fun d hd => Fin.ext ?_
    rw [key_val (by omega), key_val (by omega)]
    interval_cases d <;> norm_num <;> omega

theorem path2_iff {va va' : Nat} : Radix.path (key va) 2 = Radix.path (key va') 2 ↔
    va % 2 ^ 48 / 2 ^ 30 = va' % 2 ^ 48 / 2 ^ 30 := by
  constructor
  · intro h
    have h0 := congrArg Fin.val (Radix.path_inj h 0 (by omega))
    have h1 := congrArg Fin.val (Radix.path_inj h 1 (by omega))
    rw [key_val (by omega), key_val (by omega)] at h0 h1
    norm_num at h0 h1
    omega
  · intro h
    refine Radix.path_congr fun d hd => Fin.ext ?_
    rw [key_val (by omega), key_val (by omega)]
    interval_cases d <;> norm_num <;> omega

/-- The identity map below `e`: the 2M pages below it and no others are mapped, each to itself. Every gigabyte that
has a table begins below `e`, and each has taken a frame of the pool. -/
structure Identity (im : Image) (s : PageState) (e : Nat) : Prop extends EarlyTables im s where
  align : e % 2097152 = 0
  here : ∀ va, page2M va < e → lookup s.mem im.tab4 va = some ⟨page2M va, true, true⟩
  above : ∀ va, e ≤ page2M va → lookup s.mem im.tab4 va = none
  below : ∀ va t, node im s.mem (Radix.path (key va) 2) = some t → va % 2 ^ 48 / 2 ^ 30 * 2 ^ 30 < e
  enough : e ≤ s.earlyFrameCount * 2 ^ 30

/-- The pool reaches up to 16T. -/
theorem Identity.le {e : Nat} (h : Identity im s e) : e ≤ 2 ^ 44 := by
  have h1 := h.enough
  have h2 := h.count
  unfold earlyFrameCap at h2
  omega

theorem Identity.page {e : Nat} (h : Identity im s e) : page2M e = e := by
  have h1 := h.le
  have h2 := h.align
  unfold page2M
  omega

/-- Where no page is mapped, the table of the gigabyte has a zero. -/
theorem EarlyTree.entry_zero (h : EarlyTree im s) (hnone : lookup s.mem im.tab4 va = none)
    (ht : node im s.mem (Radix.path (key va) 2) = some t) : s.mem (t + tabEntryLen * key va 2) = 0 := by
  rcases h.tables.table_or_zero hnone (by omega) ht with hz | ⟨c, hc⟩
  · exact hz
  · have := h.short hc
    rw [Radix.path_length] at this
    omega

/-- The state after the 2M entry was written. -/
def withLeaf2M (s : PageState) (x pa : Nat) : PageState := { s with mem := Function.update s.mem x (pa + 131) }

/-- Writing the entry of a page. -/
theorem EarlyTree.leaf (h : EarlyTree im s) (hpa : pa % 2097152 = 0) (hle : pa ≤ va48LowEnd)
    (ht : node im s.mem (Radix.path (key va) 2) = some t) (hnone : lookup s.mem im.tab4 va = none) :
    earlyLeaf va pa t s = .ok () (withLeaf2M s (t + tabEntryLen * key va 2) pa) ∧
      EarlyTree im (withLeaf2M s (t + tabEntryLen * key va 2) pa) ∧
      (∀ q, node im (withLeaf2M s (t + tabEntryLen * key va 2) pa).mem q = node im s.mem q) ∧
      (∀ va', page2M va' = page2M va →
        lookup (withLeaf2M s (t + tabEntryLen * key va 2) pa).mem im.tab4 va' = some ⟨pa, true, true⟩) ∧
      ∀ va', page2M va' ≠ page2M va →
        lookup (withLeaf2M s (t + tabEntryLen * key va 2) pa).mem im.tab4 va' = lookup s.mem im.tab4 va' := by
  obtain ⟨hok, hdec⟩ := entry_2M hpa hle
  have hz := h.entry_zero hnone ht
  have hself : (withLeaf2M s (t + tabEntryLen * key va 2) pa).mem (t + tabEntryLen * key va 2) = pa + 131 := Function.update_self ..
  obtain ⟨hnode, htab, hlook⟩ := h.tables.set (withLeaf2M s (t + tabEntryLen * key va 2) pa).mem ht
    (by rw [hz, decode_zero]; simp) (by rw [hself, Radix.path_length, hdec]; simp)
    (by rw [hself, Radix.path_length]; exact hok) fun q x j _ hx => Function.update_of_ne hx _ _
  rw [Radix.path_length] at hlook
  refine ⟨?_, ⟨htab, h.stage, h.count, fun hq => h.pool ((hnode _).symm.trans hq), fun hq => h.short ((hnode _).symm.trans hq)⟩,
    hnode, fun va' hva => ?_, fun va' hva => hlook va' fun e' => hva (path3_iff.1 e')⟩
  · unfold earlyLeaf
    have hidx : vaddTabIndex va 2 s = .ok (key va 2) s := vaddTabIndex_run (by omega) va s
    rw [Exec.bind_ok hidx, Exec.bind_ok (Exec.get_run s), Exec.bind_ok (kernelAssert_pos hz _ s),
      Exec.bind_ok (tabEntryInit_run_2M hpa hle s)]
    rfl
  · have hpath : Radix.path (key va') 3 = Radix.path (key va) 3 := path3_iff.2 hva
    obtain ⟨hk, hp⟩ := List.cons.inj hpath
    refine Radix.walk_eq_some.2 ⟨2, by omega, t, ?_, ?_⟩
    · rw [hp]
      exact (hnode _).trans ht
    · rw [hk]
      show decode 2 _ = _
      rw [hself, hdec]

/-- Writing the entry of the next page. -/
theorem EarlyTables.leaf {e : Nat} (h : EarlyTables im s) (he : e % 2097152 = 0) (hle : e ≤ 2 ^ 44)
    (ht : node im s.mem (Radix.path (key e) 2) = some t) (hnone : lookup s.mem im.tab4 e = none) :
    earlyLeaf e e t s = .ok () (withLeaf2M s (t + tabEntryLen * key e 2) e) ∧
      EarlyTables im (withLeaf2M s (t + tabEntryLen * key e 2) e) ∧
      (∀ q, node im (withLeaf2M s (t + tabEntryLen * key e 2) e).mem q = node im s.mem q) ∧
      (∀ va, page2M va = e → lookup (withLeaf2M s (t + tabEntryLen * key e 2) e).mem im.tab4 va = some ⟨e, true, true⟩) ∧
      ∀ va, page2M va ≠ e → lookup (withLeaf2M s (t + tabEntryLen * key e 2) e).mem im.tab4 va = lookup s.mem im.tab4 va := by
  have hlow : e ≤ va48LowEnd := by unfold va48LowEnd; omega
  have hpage : page2M e = e := by unfold page2M; omega
  obtain ⟨hrun, h', hnode, hhere, helse⟩ := h.tree.leaf he hlow ht hnone
  rw [hpage] at hhere helse
  refine ⟨hrun, h'.with_slot ((Function.update_of_ne ?_ _ _).trans h.slot), hnode, hhere, helse⟩
  have hroot : node im s.mem [] = some im.tab4 := rfl
  refine h.tables.word_ne ht hroot fun e' => ?_
  simpa using congrArg List.length e'

/-! ## _map_early -/

section Step

variable {e : Nat}

theorem Identity.none (h : Identity im s e) : lookup s.mem im.tab4 e = Option.none := h.above e h.page.ge

/-- The pages the pool can reach are not on the way of the window. -/
theorem Identity.slot_ne (h : Identity im s e) : key e 0 ≠ key directVadd 0 := by
  have hle := h.le
  intro hk
  have hv := congrArg Fin.val hk
  rw [key_val (by omega), show (key directVadd 0 : Nat) = 256 by decide] at hv
  norm_num at hv
  omega

/-- Tables that are not those of a gigabyte change nothing. -/
theorem Identity.same (h : Identity im s e) (h' : EarlyTables im s')
    (hlook : ∀ va, lookup s'.mem im.tab4 va = lookup s.mem im.tab4 va)
    (hnode : ∀ va t, node im s'.mem (Radix.path (key va) 2) = some t → node im s.mem (Radix.path (key va) 2) = some t)
    (hcount : s.earlyFrameCount ≤ s'.earlyFrameCount) : Identity im s' e := by
  refine ⟨h', h.align, fun va hva => ?_, fun va hva => ?_, fun va t ht => h.below va t (hnode va t ht), ?_⟩
  · rw [hlook, h.here va hva]
  · rw [hlook, h.above va hva]
  · exact h.enough.trans (Nat.mul_le_mul_right _ hcount)

/-- The page is mapped once its gigabyte has a table. -/
theorem Identity.next (h : Identity im s e) (h' : EarlyTables im s')
    (hlook : ∀ va, lookup s'.mem im.tab4 va = lookup s.mem im.tab4 va)
    (hnode : ∀ va t, node im s'.mem (Radix.path (key va) 2) = some t →
      node im s.mem (Radix.path (key va) 2) = some t ∨ Radix.path (key va) 2 = Radix.path (key e) 2)
    (ht : node im s'.mem (Radix.path (key e) 2) = some t) (henough : e + 2097152 ≤ s'.earlyFrameCount * 2 ^ 30) :
    earlyLeaf e e t s' = .ok () (withLeaf2M s' (t + tabEntryLen * key e 2) e) ∧
      Identity im (withLeaf2M s' (t + tabEntryLen * key e 2) e) (e + 2097152) := by
  have hal := h.align
  have hle := h.le
  obtain ⟨hrun, h₂, hsame, hhere, helse⟩ := h'.leaf hal hle ht ((hlook e).trans h.none)
  refine ⟨hrun, h₂, by omega, fun va hva => ?_, fun va hva => ?_, fun va x hx => ?_, henough⟩
  · by_cases he : page2M va = e
    · rw [hhere va he, he]
    · rw [helse va he, hlook]
      refine h.here va ?_
      unfold page2M at *
      omega
  · rw [helse va (by omega), hlook]
    exact h.above va (by omega)
  · rcases hnode va x ((hsame _).symm.trans hx) with hx | hx
    · have := h.below va x hx
      omega
    · have := path2_iff.1 hx
      omega

theorem mapEarlyLoop_round (lv : Nat) (hlv : lv ≤ 1) {va : Nat} {ok ok' : Bool} {c : Nat}
    (hrun : earlyTable im (lv + 3) (t + tabEntryLen * tabIndex va (lv + 3)) ok s = .ok (ok', some c) s') :
    mapEarlyLoop im va (lv + 3) ok t s = mapEarlyLoop im va (lv + 2) ok' c s' := by
  have hidx := vaddTabIndex_run (by omega : 1 ≤ lv + 3 ∧ lv + 3 ≤ 4) va s
  rw [mapEarlyLoop, Exec.bind_ok hidx, Exec.bind_ok hrun]

theorem mapEarlyLoop_stop (lv : Nat) (hlv : lv ≤ 1) {va : Nat} {ok ok' : Bool}
    (hrun : earlyTable im (lv + 3) (t + tabEntryLen * tabIndex va (lv + 3)) ok s = .ok (ok', none) s') :
    mapEarlyLoop im va (lv + 3) ok t s = .ok (ok', none) s' := by
  have hidx := vaddTabIndex_run (by omega : 1 ≤ lv + 3 ∧ lv + 3 ≤ 4) va s
  rw [mapEarlyLoop, Exec.bind_ok hidx, Exec.bind_ok hrun]
  rfl

/-- How the loop of `_map_early` ends: with the table of the gigabyte, or with the pool used up. -/
inductive EarlyLoopEnds (im : Image) (s : PageState) (e : Nat) (ok : Bool) : Bool → Option Nat → PageState → Prop
  | usedUp {s' : PageState} : Identity im s' e → earlyFrameCap ≤ s.earlyFrameCount + 1 → EarlyLoopEnds im s e ok false none s'
  | table {s' : PageState} {t : Nat} {ok' : Bool} : EarlyTables im s' →
      (∀ va, lookup s'.mem im.tab4 va = lookup s.mem im.tab4 va) →
      (∀ va t, node im s'.mem (Radix.path (key va) 2) = some t →
        node im s.mem (Radix.path (key va) 2) = some t ∨ Radix.path (key va) 2 = Radix.path (key e) 2) →
      node im s'.mem (Radix.path (key e) 2) = some t → e + 2097152 ≤ s'.earlyFrameCount * 2 ^ 30 →
      s'.earlyFrameCount ≤ s.earlyFrameCount + 2 → (ok' = true ∨ ok' = ok ∧ s' = s) →
      (∀ t, node im s.mem (Radix.path (key e) 2) = some t → s' = s) → EarlyLoopEnds im s e ok ok' (some t) s'

theorem mapEarlyLoop_run (h : Identity im s e) (hpl : EarlyPlaced im) (ok : Bool) :
    ∃ ok' r s', mapEarlyLoop im e 4 ok im.tab4 s = .ok (ok', r) s' ∧ EarlyLoopEnds im s e ok ok' r s' := by
  have hne : ∀ va, Radix.path (key va) 2 ≠ Radix.path (key e) 1 := by
    intro va he
    simpa using congrArg List.length he
  obtain ⟨ok₁, r₁, s₁, hrun₁, h₁, hg₁, hends₁⟩ := earlyTable_run h.toEarlyTables hpl (d := 0) (by omega) h.slot_ne rfl h.none ok
  have hnode₁ : ∀ va t, node im s₁.mem (Radix.path (key va) 2) = some t → node im s.mem (Radix.path (key va) 2) = some t :=
    fun va t ht => (hg₁.new ht).resolve_right (hne va)
  have hcount₁ : s.earlyFrameCount ≤ s₁.earlyFrameCount ∧ s₁.earlyFrameCount ≤ s.earlyFrameCount + 1 := by
    cases hends₁ <;> omega
  have hok₁ : r₁ = none ∨ ok₁ = true ∨ ok₁ = ok ∧ s₁ = s := by
    cases hends₁
    · exact .inr (.inr ⟨rfl, rfl⟩)
    · exact .inr (.inl rfl)
    · exact .inl rfl
  have hnext : r₁ = none ∨ ∃ c, r₁ = some c ∧ node im s₁.mem (Radix.path (key e) 1) = some c := by
    cases hends₁ with
    | found hc => exact .inr ⟨_, rfl, hc⟩
    | linked _ hc _ => exact .inr ⟨_, rfl, hc⟩
    | usedUp _ => exact .inl rfl
  -- if there is a table for the gigabyte, then also one above it
  have hsame₁ : ∀ t, node im s.mem (Radix.path (key e) 2) = some t → s₁ = s := by
    intro t ht
    obtain ⟨c, hc, -⟩ := Radix.node_cons.1 ht
    cases hends₁ with
    | found _ => rfl
    | linked hno _ _ =>
      have hno : Radix.node (entries s.mem) im.tab4 (Radix.path (key e) 1) = none := hno
      rw [hno] at hc
      cases hc
    | usedUp _ => rfl
  rcases hnext with rfl | ⟨c, rfl, hc⟩
  · cases hends₁ with
    | usedUp hcap => exact ⟨_, _, _, mapEarlyLoop_stop 1 (by omega) hrun₁, .usedUp h (by omega)⟩
  · have hok₁ := hok₁.resolve_left nofun
    have hloop : mapEarlyLoop im e 4 ok im.tab4 s = mapEarlyLoop im e 3 ok₁ c s₁ := mapEarlyLoop_round 1 (by omega) hrun₁
    obtain ⟨ok₂, r₂, s₂, hrun₂, h₂, hg₂, hends₂⟩ := earlyTable_run h₁ hpl (d := 1) (by omega) h.slot_ne hc
      ((hg₁.lookup e).trans h.none) ok₁
    have hlook₂ : ∀ va, lookup s₂.mem im.tab4 va = lookup s.mem im.tab4 va := fun va => (hg₂.lookup va).trans (hg₁.lookup va)
    have hnode₂ : ∀ va t, node im s₂.mem (Radix.path (key va) 2) = some t →
        node im s.mem (Radix.path (key va) 2) = some t ∨ Radix.path (key va) 2 = Radix.path (key e) 2 :=
      fun va t ht => (hg₂.new ht).imp_left (hnode₁ va t)
    cases hends₂ with
    | usedUp hcap =>
      refine ⟨_, _, _, hloop.trans (mapEarlyLoop_stop 0 (by omega) hrun₂), .usedUp ?_ (by omega)⟩
      exact h.same h₁ hg₁.lookup hnode₁ hcount₁.1
    | found ht =>
      -- the gigabyte had a table before, so the page is not its first
      refine ⟨_, _, _, hloop.trans (mapEarlyLoop_round 0 (by omega) hrun₂), .table h₂ hlook₂ hnode₂ ht ?_ (by omega) hok₁ hsame₁⟩
      have hb := h.below e _ (hnode₁ e _ ht)
      have h1 := h.enough
      have h2 := h.align
      have h3 := h.le
      have h4 := Nat.mul_le_mul_right (2 ^ 30) hcount₁.1
      omega
    | linked hno ht hcount =>
      refine ⟨_, _, _, hloop.trans (mapEarlyLoop_round 0 (by omega) hrun₂), .table h₂ hlook₂ hnode₂ ht ?_ (by omega) (.inl rfl)
        fun t ht => ?_⟩
      · have h1 := h.enough
        have h4 := Nat.mul_le_mul_right (2 ^ 30) hcount₁.1
        rw [hcount]
        omega
      · rw [hg₁.old ht] at hno
        cases hno

/-- `_map_early` of the next page. -/
theorem mapEarly_run (h : Identity im s e) (hpl : EarlyPlaced im) (ok : Bool) :
    ∃ ok' s', mapEarly im ok e e s = .ok ok' s' ∧ (ok' = true → Identity im s' (e + 2097152)) ∧
      (ok' = false → Identity im s' e) ∧
      (ok = true → s.earlyFrameCount + 2 ≤ earlyFrameCap → ok' = true ∧ s'.earlyFrameCount ≤ s.earlyFrameCount + 2 ∧
        ∀ t, node im s.mem (Radix.path (key e) 2) = some t → s'.earlyFrameCount = s.earlyFrameCount) := by
  have hal : mmAlignCheck e pageSize2M = true := by
    have := h.align
    unfold mmAlignCheck pageSize2M
    simp only [decide_eq_true_eq]
    omega
  obtain ⟨ok', r, s', hrun, hends⟩ := mapEarlyLoop_run h hpl ok
  unfold mapEarly
  rw [Exec.bind_ok (kernelAssert_pos hal _ s), Exec.bind_ok (kernelAssert_pos hal _ s), Exec.bind_ok hrun]
  cases hends with
  | usedUp h' hcap => exact ⟨false, s', rfl, nofun, fun _ => h', fun _ hc => absurd hcap (by omega)⟩
  | table h' hlook hnode ht henough hcount hok hsame =>
    cases ok' with
    | true =>
      obtain ⟨hleaf, hid⟩ := h.next h' hlook hnode ht henough
      refine ⟨true, _, ?_, fun _ => hid, nofun, fun _ _ => ⟨rfl, hcount, fun t ht => ?_⟩⟩
      · show (earlyLeaf e e _ >>= fun _ => _) s' = _
        rw [Exec.bind_ok hleaf]
        rfl
      · show s'.earlyFrameCount = _
        rw [hsame t ht]
    | false =>
      obtain ⟨rfl, rfl⟩ := hok.resolve_left nofun
      exact ⟨false, s', rfl, nofun, fun _ => h, nofun⟩

end Step

/-! ## mm_page_early_bootstrap -/

/-- Whatever the loop does, it leaves an identity map up to where it ends. -/
theorem earlyBootstrapLoop_ok (hpl : EarlyPlaced im) {garbage : Nat → Bool} {phyEnd : Nat} : ∀ {n e r : Nat} {s s' : PageState},
    Identity im s e → earlyBootstrapLoop im garbage phyEnd n e s = .ok r s' → Identity im s' r
  | 0, _, _, _, _, _, hrun => by cases hrun
  | n + 1, e, r, s, s', h, hrun => by
    rw [earlyBootstrapLoop] at hrun
    split at hrun
    · obtain ⟨ok, s₁, hmap, hrun⟩ := Exec.bind_eq_ok.1 hrun
      obtain ⟨ok', s₁', hmap', htrue, hfalse, -⟩ := mapEarly_run h hpl (garbage e)
      rw [hmap] at hmap'
      cases hmap'
      cases ok with
      | true =>
        have hle := h.le
        have hnext : u64 (e + pageSize2M) = e + 2097152 := by unfold u64 pageSize2M; omega
        rw [if_pos rfl, hnext] at hrun
        exact earlyBootstrapLoop_ok hpl (htrue rfl) hrun
      | false =>
        cases hrun
        exact hfalse rfl
    · cases hrun
      exact h

/-- A page that is not the first of its gigabyte finds the table of the page before. -/
theorem Identity.table (h : Identity im s e) (hpos : e % 2 ^ 30 ≠ 0) : ∃ t, node im s.mem (Radix.path (key e) 2) = some t := by
  have hal := h.align
  have hle := h.le
  have hprev : page2M (e - 2097152) = e - 2097152 := by unfold page2M; omega
  have hl := h.here (e - 2097152) (by omega)
  obtain ⟨t, ht, -⟩ := h.tables.leaf_spec hl
  have hpath : Radix.path (key (e - 2097152)) 2 = Radix.path (key e) 2 := path2_iff.2 (by omega)
  rw [← hpath]
  exact ⟨t, ht⟩

/-- If the garbage is true, the loop gets to the last page below the end of a gigabyte of memory, with two tables. -/
theorem earlyBootstrapLoop_run (hpl : EarlyPlaced im) {phyEnd : Nat} (hend : phyEnd ≤ 2 ^ 30) : ∀ {n e : Nat} {s : PageState},
    Identity im s e → s.earlyFrameCount ≤ (if e = 0 then 0 else 2) → e < phyEnd → phyEnd ≤ e + (n + 1) * 2097152 →
    ∃ r s', earlyBootstrapLoop im (fun _ => true) phyEnd (n + 1) e s = .ok r s' ∧ phyEnd ≤ r + 2097152 ∧ r < phyEnd ∧
      s'.earlyFrameCount ≤ 2 := by
  intro n
  induction n with
  | zero =>
    intro e s h hc hlt hn
    have hstop : ¬ u64 (e + pageSize2M) < phyEnd := by unfold u64 pageSize2M; omega
    rw [earlyBootstrapLoop, if_neg hstop]
    exact ⟨e, s, rfl, by omega, hlt, hc.trans (by split <;> omega)⟩
  | succ n ih =>
    intro e s h hc hlt hn
    have hc2 : s.earlyFrameCount ≤ 2 := hc.trans (by split <;> omega)
    have hnext : u64 (e + pageSize2M) = e + 2097152 := by unfold u64 pageSize2M; omega
    rw [earlyBootstrapLoop, hnext]
    split
    · obtain ⟨ok, s₁, hmap, htrue, -, hpool⟩ := mapEarly_run h hpl true
      obtain ⟨rfl, hcount, hsame⟩ := hpool rfl (by unfold earlyFrameCap; omega)
      rw [Exec.bind_ok hmap, if_pos rfl]
      refine ih (htrue rfl) ?_ (by omega) (by omega)
      rw [if_neg (by omega)]
      by_cases he : e = 0
      · rw [if_pos he] at hc
        omega
      · obtain ⟨t, ht⟩ := h.table (by omega)
        rw [hsame t ht]
        exact hc2
    · exact ⟨e, s, rfl, by omega, hlt, hc2⟩

/-- The empty map, once `_tab_4` is zeroed. -/
theorem Identity.empty (hpl : EarlyPlaced im) (hz : ∀ i : Fin 512, s.mem (im.tab4 + tabEntryLen * i) = 0)
    (hstage : s.isEarlyStage = true) (hcount : s.earlyFrameCount = 0) : Identity im s 0 := by
  obtain ⟨htab, hnode⟩ := Tables.root hpl.tab4 hz
  refine ⟨⟨htab, hstage, by omega, fun hq hne => absurd (hnode hq).1 hne, fun hq => ?_, hz _⟩, rfl,
    fun va hva => absurd hva (Nat.not_lt_zero _), fun va _ => ?_, fun va t ht => ?_, by omega⟩
  · rw [(hnode hq).1]
    exact Nat.succ_pos _
  · refine Option.eq_none_iff_forall_ne_some.2 fun l hl => ?_
    obtain ⟨d, -, t, ht, hdec⟩ := Radix.walk_eq_some.1 hl
    unfold entries at hdec
    rw [(hnode ht).2, hz, decode_zero] at hdec
    cases hdec
  · cases (hnode ht).1

theorem Identity.zeroed (hpl : EarlyPlaced im) (hstage : s.isEarlyStage = true) (hcount : s.earlyFrameCount = 0)
    (h : staticTabZero im.tab4 s = .ok () s') : Identity im s' 0 := by
  cases h
  refine .empty hpl (fun i => ?_) hstage hcount
  have hi := i.isLt
  exact if_pos (by unfold tabEntryLen tabEntryCount; omega)

theorem mmPaStart_ok {mach : Machine} {a : Nat} (h : mmPaStart mach s = .ok a s') : s' = s := by
  unfold mmPaStart at h
  cases hs : mach.secs with
  | nil => rw [hs] at h; cases h
  | cons sec secs => rw [hs] at h; cases h; rfl

theorem mmPaEnd_ok {mach : Machine} {a : Nat} (h : mmPaEnd mach s = .ok a s') :
    s' = s ∧ ∃ sec ∈ mach.secs, a = u64 (sec.base + sec.len) := by
  unfold mmPaEnd at h
  cases hs : mach.secs.getLast? with
  | none => rw [hs] at h; cases h
  | some sec =>
    rw [hs] at h
    cases h
    exact ⟨rfl, sec, List.mem_of_getLast? hs, rfl⟩

/-- `mm_page_early_bootstrap` leaves an identity map up to `_early_map_end`. -/
theorem mmPageEarlyBootstrap_ok (hpl : EarlyPlaced im) {mach : Machine} {garbage : Nat → Bool} {n e : Nat}
    (hstage : s.isEarlyStage = true) (hcount : s.earlyFrameCount = 0)
    (hrun : mmPageEarlyBootstrap im mach garbage n s = .ok e s') : Identity im s' e := by
  unfold mmPageEarlyBootstrap at hrun
  obtain ⟨_, s₁, h1, hrun⟩ := Exec.bind_eq_ok.1 hrun
  obtain ⟨phyEnd, s₂, h2, hrun⟩ := Exec.bind_eq_ok.1 hrun
  obtain ⟨_, s₃, h3, hrun⟩ := Exec.bind_eq_ok.1 hrun
  obtain ⟨_, s₄, h4, hrun⟩ := Exec.bind_eq_ok.1 hrun
  obtain ⟨_, s₅, h5, hrun⟩ := Exec.bind_eq_ok.1 hrun
  obtain ⟨_, s₆, h6, hrun⟩ := Exec.bind_eq_ok.1 hrun
  obtain ⟨e', s₇, h7, hrun⟩ := Exec.bind_eq_ok.1 hrun
  obtain ⟨_, s₈, h8, hrun⟩ := Exec.bind_eq_ok.1 hrun
  have hs : s₅ = s := by
    rw [(kernelAssert_ok h5).2, (kernelAssert_ok h4).2, (kernelAssert_ok h3).2, (mmPaEnd_ok h2).1, mmPaStart_ok h1]
  rw [hs] at h6
  have h0 : Identity im s₆ 0 := .zeroed hpl hstage hcount h6
  have hid := earlyBootstrapLoop_ok hpl h0 h7
  rw [← (kernelAssert_ok h8).2] at hid
  cases hrun
  exact hid

/-- `mm_page_early_bootstrap` reaches the end of a small memory. -/
theorem mmPageEarlyBootstrap_run (hpl : EarlyPlaced im) {mach : Machine} {phyEnd : Nat} (hstage : s.isEarlyStage = true)
    (hcount : s.earlyFrameCount = 0) {lo : Nat} (hlo : ∀ s, mmPaStart mach s = .ok lo s) (hend : ∀ s, mmPaEnd mach s = .ok phyEnd s)
    (h1 : lo < mach.kernelStart) (h2 : mach.kernelEnd < phyEnd) (h3 : mach.kernelStart < mach.kernelEnd)
    (h4 : phyEnd ≤ 2 ^ 30) :
    ∃ e s', mmPageEarlyBootstrap im mach (fun _ => true) 513 s = .ok e s' ∧ phyEnd ≤ e + 2097152 ∧ e < phyEnd ∧
      s'.earlyFrameCount ≤ 2 := by
  have hz : ∃ s', staticTabZero im.tab4 s = .ok () s' ∧ s'.earlyFrameCount = 0 := ⟨_, rfl, hcount⟩
  obtain ⟨s₁, hz, hc⟩ := hz
  have hpos : 0 < phyEnd := by omega
  obtain ⟨e, s', hloop, hle, hlt, htwo⟩ := earlyBootstrapLoop_run hpl h4 (n := 512) (.zeroed hpl hstage hcount hz)
    hc.le hpos (by omega)
  have hal : mmAlignCheck im.tab4 pageSize4K = true := by
    unfold mmAlignCheck
    exact decide_eq_true hpl.tab4.1.1
  refine ⟨e, s', ?_, hle, hlt, htwo⟩
  unfold mmPageEarlyBootstrap
  rw [Exec.bind_ok (hlo s), Exec.bind_ok (hend s), Exec.bind_ok (kernelAssert_pos h1 _ s), Exec.bind_ok (kernelAssert_pos h2 _ s),
    Exec.bind_ok (kernelAssert_pos h3 _ s), Exec.bind_ok hz, Exec.bind_ok hloop, Exec.bind_ok (kernelAssert_pos hal _ s')]
  rfl

end Cing.Page
