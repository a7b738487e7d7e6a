/-
The two mappers of the early stages: `_map_early` of mm_page.c and `_map_bootstrap` of mem_page.c, on trees of 2M pages that earlier
calls of either built. They differ in one line: `_map_bootstrap` sets `ok` before its loop. Where both upper tables are there
already, no allocation sets the `ok` of `_map_early`, and the call depends on what the stack held.
-/
import Cing.Mem.Bootstrap
import Cing.Mm.Page.Fails

namespace Cing

namespace Page

variable {im : Image} {s s' : PageState} {t va pa : Nat} {ok : Bool}

/-- How many of the two upper tables on the way of an address are missing. -/
def tablesNeeded (im : Image) (m : Words) (va : Nat) : Nat :=
  match node im m (Radix.path (key va) 1), node im m (Radix.path (key va) 2) with
  | none, _ => 2
  | some _, none => 1
  | some _, some _ => 0

/-- In trees of 2M pages, nothing is mapped where the table of the gigabyte is missing or has a zero. -/
theorem EarlyTree.lookup_none_iff (h : EarlyTree im s) : lookup s.mem im.tab4 va = none ↔
    ∀ t, node im s.mem (Radix.path (key va) 2) = some t → s.mem (t + tabEntryLen * key va 2) = 0 := by
  constructor
  · exact fun hnone t ht => h.entry_zero hnone ht
  · intro hz
    refine Option.eq_none_iff_forall_ne_some.2 fun l hl => ?_
    obtain ⟨d, hd, t, ht, hleaf⟩ := Radix.walk_eq_some.1 hl
    have hd3 := h.short ht
    rw [Radix.path_length] at hd3
    unfold entries decode at hleaf
    split at hleaf
    · rw [if_neg (by omega)] at hleaf
      split at hleaf
      next h2 =>
        rw [h2.1] at ht
        have hzero := hz t ht
        rw [h2.1, hzero] at h2
        exact absurd h2.2 (by decide)
      next => cases hleaf
    · cases hleaf

/-- An entry of an upper table that leads nowhere is zero. -/
theorem EarlyTree.entry_cases (h : EarlyTree im s) {d : Nat} (hd : d < 2) (ht : node im s.mem (Radix.path (key va) d) = some t) :
    (s.mem (t + tabEntryLen * key va d) = 0 ∧ node im s.mem (Radix.path (key va) (d + 1)) = none) ∨
      ∃ c, node im s.mem (Radix.path (key va) (d + 1)) = some c ∧ tabEntryIsPresent (s.mem (t + tabEntryLen * key va d)) = true ∧
        tabEntryGetPadd (s.mem (t + tabEntryLen * key va d)) = c := by
  have hok := h.tables.entry ht (key va d)
  rw [Radix.path_length] at hok
  cases hdec : decode d (s.mem (t + tabEntryLen * key va d)) with
  | absent =>
    have hz := hok.absent_iff.1 hdec
    exact .inl ⟨hz, node_eq_none ht hz⟩
  | leaf l =>
    unfold decode at hdec
    split at hdec
    · rw [if_neg (by omega), if_neg (by omega)] at hdec
      cases hdec
    · cases hdec
  | table c =>
    obtain ⟨-, hpres, -, hpadd⟩ := decode_eq_table hok hdec
    exact .inr ⟨c, Radix.node_cons.2 ⟨t, ht, by rw [Radix.path_length]; exact hdec⟩, hpres, hpadd⟩

/-! ## What `ok` held -/

theorem earlyTable_present (im : Image) (level : Nat) {x : Nat} (h : tabEntryIsPresent (s.mem x) = true) (ok : Bool) :
    earlyTable im level x ok s = .ok (ok, some (tabEntryGetPadd (s.mem x))) s := by
  unfold earlyTable
  rw [Exec.bind_ok (Exec.get_run s), if_pos h]
  rfl

/-- A missing table sets `ok`. -/
theorem earlyTable_absent {level x : Nat} (h : s.mem x = 0) (ok ok' : Bool) :
    earlyTable im level x ok s = earlyTable im level x ok' s := by
  unfold earlyTable
  rw [Exec.bind_ok (Exec.get_run s), Exec.bind_ok (Exec.get_run s), h, if_neg (by decide), if_neg (by decide)]

theorem mapEarlyLoop_absent (lv : Nat) (hlv : lv ≤ 1) (h : s.mem (t + tabEntryLen * tabIndex va (lv + 3)) = 0) (ok ok' : Bool) :
    mapEarlyLoop im va (lv + 3) ok t s = mapEarlyLoop im va (lv + 3) ok' t s := by
  have hidx := vaddTabIndex_run (by omega : 1 ≤ lv + 3 ∧ lv + 3 ≤ 4) va s
  rw [mapEarlyLoop, mapEarlyLoop, Exec.bind_ok hidx, Exec.bind_ok hidx]
  exact Exec.bind_congr (earlyTable_absent h ok ok')

/-- The loop with both tables there. -/
theorem EarlyTree.loop_found (h : EarlyTree im s) (ht : node im s.mem (Radix.path (key va) 2) = some t) (ok : Bool) :
    mapEarlyLoop im va 4 ok im.tab4 s = .ok (ok, some t) s := by
  have hroot : node im s.mem (Radix.path (key va) 0) = some im.tab4 := rfl
  have hup : ∃ c, node im s.mem (Radix.path (key va) 1) = some c := by
    obtain ⟨c, hc, -⟩ := Radix.node_cons.1 ht
    exact ⟨c, hc⟩
  obtain ⟨c, hc⟩ := hup
  rcases h.entry_cases (by omega) hroot with ⟨-, hno⟩ | ⟨c', hc', hpres, hpadd⟩
  · rw [hno] at hc
    cases hc
  obtain rfl : c = c' := Option.some.inj (hc.symm.trans hc')
  rcases h.entry_cases (by omega) hc with ⟨-, hno⟩ | ⟨t', ht', hpres', hpadd'⟩
  · rw [hno] at ht
    cases ht
  obtain rfl : t = t' := Option.some.inj (ht.symm.trans ht')
  have h4 := earlyTable_present im 4 hpres ok
  have h3 := earlyTable_present im 3 hpres' ok
  rw [hpadd] at h4
  rw [hpadd'] at h3
  exact (mapEarlyLoop_round 1 (by omega) h4).trans (mapEarlyLoop_round 0 (by omega) h3)

/-- If a table is missing, then what `ok` held does not matter. -/
theorem EarlyTree.loop_missing (h : EarlyTree im s) (hno : node im s.mem (Radix.path (key va) 2) = none) (ok ok' : Bool) :
    mapEarlyLoop im va 4 ok im.tab4 s = mapEarlyLoop im va 4 ok' im.tab4 s := by
  have hroot : node im s.mem (Radix.path (key va) 0) = some im.tab4 := rfl
  rcases h.entry_cases (by omega) hroot with ⟨hz, -⟩ | ⟨c, hc, hpres, hpadd⟩
  · exact mapEarlyLoop_absent 1 (by omega) hz ok ok'
  · rcases h.entry_cases (by omega) hc with ⟨hz, -⟩ | ⟨t', ht', -, -⟩
    · have hround : ∀ ok, mapEarlyLoop im va 4 ok im.tab4 s = mapEarlyLoop im va 3 ok c s := by
        intro ok
        have h4 := earlyTable_present im 4 hpres ok
        rw [hpadd] at h4
        exact mapEarlyLoop_round 1 (by omega) h4
      rw [hround, hround]
      exact mapEarlyLoop_absent 0 (by omega) hz ok ok'
    · rw [hno] at ht'
      cases ht'

/-! ## A call -/

theorem tablesNeeded_two (h : node im s.mem (Radix.path (key va) 1) = none) : tablesNeeded im s.mem va = 2 := by
  unfold tablesNeeded
  rw [h]

theorem tablesNeeded_one {c : Nat} (h1 : node im s.mem (Radix.path (key va) 1) = some c)
    (h2 : node im s.mem (Radix.path (key va) 2) = none) : tablesNeeded im s.mem va = 1 := by
  unfold tablesNeeded
  rw [h1, h2]

theorem tablesNeeded_eq_zero_iff (im : Image) (s : PageState) :
    tablesNeeded im s.mem va = 0 ↔ ∃ t, node im s.mem (Radix.path (key va) 2) = some t := by
  unfold tablesNeeded
  constructor
  · intro h
    split at h
    · cases h
    · cases h
    next ht => exact ⟨_, ht⟩
  · rintro ⟨t, ht⟩
    obtain ⟨c, hc, -⟩ := Radix.node_cons.1 ht
    have hc : node im s.mem (Radix.path (key va) 1) = some c := hc
    rw [hc, ht]

/-- How the loop ends: with the table of the gigabyte if the pool had the missing tables, else without. -/
def LoopDone (im : Image) (va : Nat) (s : PageState) (ok : Bool) (r : Option Nat) (s' : PageState) : Prop :=
  (ok = true ∧ (∃ t, r = some t ∧ node im s'.mem (Radix.path (key va) 2) = some t) ∧
    s.earlyFrameCount + tablesNeeded im s.mem va ≤ earlyFrameCap) ∨
  (ok = false ∧ r = none ∧ earlyFrameCap < s.earlyFrameCount + tablesNeeded im s.mem va)

/-- The second round, at the table of the first. -/
theorem EarlyTree.loop_lower (h : EarlyTree im s) (hpl : EarlyPlaced im) (hnone : lookup s.mem im.tab4 va = none) {c : Nat}
    (hc : node im s.mem (Radix.path (key va) 1) = some c) :
    ∃ ok r s', mapEarlyLoop im va 3 true c s = .ok (ok, r) s' ∧ EarlyTree im s' ∧
      (∀ va', lookup s'.mem im.tab4 va' = lookup s.mem im.tab4 va') ∧ LoopDone im va s ok r s' := by
  have hcount := h.count
  rcases h.entry_cases (by omega) hc with ⟨-, hno⟩ | ⟨t, ht, hpres, hpadd⟩
  · have hneed := tablesNeeded_one hc hno
    obtain ⟨ok, r, s', hrun, h', hg, hends, -⟩ := h.table_run hpl (by omega) hc hnone true
    cases hends with
    | found ht =>
      rw [hno] at ht
      cases ht
    | linked _ ht hnext =>
      have hcount' := h'.count
      exact ⟨_, _, s', mapEarlyLoop_round 0 (by omega) hrun, h', hg.lookup, .inl ⟨rfl, ⟨_, rfl, ht⟩, by omega⟩⟩
    | usedUp hcap => exact ⟨_, _, s, mapEarlyLoop_stop 0 (by omega) hrun, h, fun _ => rfl, .inr ⟨rfl, rfl, by omega⟩⟩
  · have hneed := (tablesNeeded_eq_zero_iff im s).2 ⟨t, ht⟩
    have h3 := earlyTable_present im 3 hpres true
    rw [hpadd] at h3
    exact ⟨_, _, s, mapEarlyLoop_round 0 (by omega) h3, h, fun _ => rfl, .inl ⟨rfl, ⟨t, rfl, ht⟩, by omega⟩⟩

theorem EarlyTree.loop_run (h : EarlyTree im s) (hpl : EarlyPlaced im) (hnone : lookup s.mem im.tab4 va = none) :
    ∃ ok r s', mapEarlyLoop im va 4 true im.tab4 s = .ok (ok, r) s' ∧ EarlyTree im s' ∧
      (∀ va', lookup s'.mem im.tab4 va' = lookup s.mem im.tab4 va') ∧ LoopDone im va s ok r s' := by
  have hroot : node im s.mem (Radix.path (key va) 0) = some im.tab4 := rfl
  have hcount := h.count
  rcases h.entry_cases (by omega) hroot with ⟨-, hno⟩ | ⟨c, hc, hpres, hpadd⟩
  · have hneed := tablesNeeded_two hno
    obtain ⟨ok, r, s₁, hrun, h₁, hg, hends, -⟩ := h.table_run hpl (by omega) hroot hnone true
    cases hends with
    | found hc =>
      rw [hno] at hc
      cases hc
    | linked _ hc hnext =>
      -- the new table is empty, so the second round needs another
      have hbelow : node im s₁.mem (Radix.path (key va) 2) = none := by
        refine Option.eq_none_iff_forall_ne_some.2 fun t ht => ?_
        rcases hg.new ht with hold | he
        · obtain ⟨c, hc, -⟩ := Radix.node_cons.1 hold
          have hc : node im s.mem (Radix.path (key va) 1) = some c := hc
          rw [hno] at hc
          cases hc
        · have hlen := congrArg List.length he
          rw [Radix.path_length, Radix.path_length] at hlen
          omega
      have hneed₁ := tablesNeeded_one hc hbelow
      obtain ⟨ok, r, s', hloop, h', hlook, hdone⟩ := h₁.loop_lower hpl ((hg.lookup va).trans hnone) hc
      refine ⟨ok, r, s', (mapEarlyLoop_round 1 (by omega) hrun).trans hloop, h', fun va' => (hlook va').trans (hg.lookup va'), ?_⟩
      unfold LoopDone at hdone ⊢
      rw [hneed₁, hnext] at hdone
      rw [hneed]
      exact hdone
    | usedUp hcap => exact ⟨_, _, s, mapEarlyLoop_stop 1 (by omega) hrun, h, fun _ => rfl, .inr ⟨rfl, rfl, by omega⟩⟩
  · obtain ⟨ok, r, s', hloop, hrest⟩ := h.loop_lower hpl hnone hc
    have h4 := earlyTable_present im 4 hpres true
    rw [hpadd] at h4
    exact ⟨ok, r, s', (mapEarlyLoop_round 1 (by omega) h4).trans hloop, hrest⟩

/-- A call whose `ok` is true: the page is mapped if the pool has the missing tables, and nothing else changes. -/
theorem EarlyTree.map_run (h : EarlyTree im s) (hpl : EarlyPlaced im) (hva : va % pageSize2M = 0) (hpa : pa % pageSize2M = 0)
    (hle : pa ≤ va48LowEnd) (hnone : lookup s.mem im.tab4 va = none) :
    ∃ ok s', mapEarly im true va pa s = .ok ok s' ∧ EarlyTree im s' ∧
      (ok = true ↔ s.earlyFrameCount + tablesNeeded im s.mem va ≤ earlyFrameCap) ∧
      (ok = true → lookup s'.mem im.tab4 va = some ⟨pa, true, true⟩) ∧
      ∀ va', page2M va' ≠ page2M va → lookup s'.mem im.tab4 va' = lookup s.mem im.tab4 va' := by
  obtain ⟨ok, r, s', hloop, h', hlook, hdone⟩ := h.loop_run hpl hnone
  unfold mapEarly
  rw [Exec.bind_ok (kernelAssert_pos (mmAlignCheck_iff.2 hva) _ s), Exec.bind_ok (kernelAssert_pos (mmAlignCheck_iff.2 hpa) _ s),
    Exec.bind_ok hloop]
  rcases hdone with ⟨rfl, ⟨t, rfl, ht⟩, hroom⟩ | ⟨rfl, rfl, hfull⟩
  · obtain ⟨hleaf, h₂, -, hhere, helse⟩ := h'.leaf hpa hle ht ((hlook va).trans hnone)
    refine ⟨true, _, ?_, h₂, ⟨fun _ => hroom, fun _ => rfl⟩, fun _ => hhere va rfl,
      fun va' hne => (helse va' hne).trans (hlook va')⟩
    show (earlyLeaf va pa t >>= fun _ => _) s' = _
    rw [Exec.bind_ok hleaf]
    rfl
  · exact ⟨false, s', rfl, h', ⟨nofun, fun hroom => absurd hroom (by omega)⟩, nofun, fun va' _ => hlook va'⟩

/-- A call with both tables there goes by its `ok`. -/
theorem EarlyTree.map_false (h : EarlyTree im s) (hva : va % pageSize2M = 0) (hpa : pa % pageSize2M = 0)
    (ht : node im s.mem (Radix.path (key va) 2) = some t) : mapEarly im false va pa s = .ok false s := by
  unfold mapEarly
  rw [Exec.bind_ok (kernelAssert_pos (mmAlignCheck_iff.2 hva) _ s), Exec.bind_ok (kernelAssert_pos (mmAlignCheck_iff.2 hpa) _ s),
    Exec.bind_ok (h.loop_found ht false)]
  rfl

theorem EarlyTree.map_missing (h : EarlyTree im s) (hno : node im s.mem (Radix.path (key va) 2) = none) (ok ok' : Bool) :
    mapEarly im ok va pa s = mapEarly im ok' va pa s := by
  unfold mapEarly
  by_cases hva : mmAlignCheck va pageSize2M = true
  · by_cases hpa : mmAlignCheck pa pageSize2M = true
    · rw [Exec.bind_ok (kernelAssert_pos hva _ s), Exec.bind_ok (kernelAssert_pos hpa _ s), Exec.bind_ok (kernelAssert_pos hva _ s),
        Exec.bind_ok (kernelAssert_pos hpa _ s)]
      exact Exec.bind_congr (h.loop_missing hno ok ok')
    · rw [Exec.bind_ok (kernelAssert_pos hva _ s), Exec.bind_error (kernelAssert_neg hpa _ s),
        Exec.bind_ok (kernelAssert_pos hva _ s), Exec.bind_error (kernelAssert_neg hpa _ s)]
  · rw [Exec.bind_error (kernelAssert_neg hva _ s), Exec.bind_error (kernelAssert_neg hva _ s)]

/-- A call whose page is mapped already stops, or changes nothing. -/
theorem EarlyTree.map_occupied (h : EarlyTree im s) (hsome : lookup s.mem im.tab4 va ≠ none) {r : Bool}
    (hrun : mapEarly im ok va pa s = .ok r s') : s' = s := by
  obtain ⟨t, ht, hne⟩ : ∃ t, node im s.mem (Radix.path (key va) 2) = some t ∧ s.mem (t + tabEntryLen * key va 2) ≠ 0 := by
    by_contra hc
    refine hsome (h.lookup_none_iff.2 fun t ht => ?_)
    by_contra hz
    exact hc ⟨t, ht, hz⟩
  unfold mapEarly at hrun
  obtain ⟨-, hrun⟩ := kernelAssert_bind hrun
  obtain ⟨-, hrun⟩ := kernelAssert_bind hrun
  rw [Exec.bind_ok (h.loop_found ht ok)] at hrun
  cases ok with
  | false =>
    injection hrun with _ hs'
    exact hs'.symm
  | true =>
    obtain ⟨_, s₁, hleaf, -⟩ := Exec.bind_eq_ok.1 hrun
    unfold earlyLeaf at hleaf
    have hidx : vaddTabIndex va 2 s = .ok (key va 2) s := vaddTabIndex_run (by omega) va s
    rw [Exec.bind_ok hidx, Exec.bind_ok (Exec.get_run s)] at hleaf
    exact absurd (kernelAssert_bind hleaf).1 hne

end Page

/-! ## Trees of 2M pages -/

namespace Mem

open Page

variable {im : MemImage} {root va pa : Nat} {s s' : MemState}

/-- Where the linker may put a root table: at a page below `VA_48_LOW_END`, and outside the pool. -/
structure RootPlaced (im : MemImage) (root : Nat) : Prop where
  placed : Placed root pageSize4K
  apart : ∀ k < frameCapBootstrap, im.framePoolBootstrap + k * pageSize4K ≠ root

theorem RootPlaced.early (h : RootPlaced im root) : EarlyPlaced (view im root h.placed.1) := by
  obtain ⟨h1, h2, h3⟩ := h.placed
  unfold pageSize4K at h3
  exact ⟨⟨⟨h1, by show root ≤ _; omega⟩, h2⟩, fun k hk => ⟨poolFrame_low im hk, h.apart k hk⟩⟩

/-- The trees that calls of the two mappers build below a root that was zero: any frames of the pool may be gone, and the calls may
be of either mapper, with any `ok` on the stack. -/
inductive TreeBuilt (im : MemImage) (root : Nat) (h : RootPlaced im root) : MemState → Prop
  | start {s : MemState} (hstage : s.bootStage < memBootstrapStageFinish) (hcount : s.frameCountBootstrap ≤ frameCapBootstrap)
      (hzero : ∀ i : Fin 512, s.mem (root + tabEntryLen * i) = 0) : TreeBuilt im root h s
  | frames {s : MemState} {n : Nat} (hb : TreeBuilt im root h s) (hle : s.frameCountBootstrap ≤ n) (hn : n ≤ frameCapBootstrap) :
      TreeBuilt im root h { s with frameCountBootstrap := n }
  | viaBootstrap {s s' : MemState} {va pa : Nat} {r : Bool} (hb : TreeBuilt im root h s) (hle : pa ≤ va48LowEnd)
      (hrun : mapBootstrap im root va pa s = .ok r s') : TreeBuilt im root h s'
  | viaEarly {s s' : MemState} {va pa : Nat} {ok r : Bool} (hb : TreeBuilt im root h s) (hle : pa ≤ va48LowEnd)
      (hrun : mapEarly (view im root h.placed.1) ok va pa (early s) = .ok r (early s')) : TreeBuilt im root h s'

/-- A page that is mapped already stops `_map_bootstrap`. -/
theorem mapBootstrap_occupied (h : RootPlaced im root) (htree : EarlyTree (view im root h.placed.1) (early s))
    (hsome : lookup s.mem root va ≠ none) (r : Bool) (s' : MemState) : mapBootstrap im root va pa s ≠ .ok r s' := by
  intro hrun
  obtain ⟨t, ht, hne⟩ : ∃ t, node (view im root h.placed.1) s.mem (Radix.path (key va) 2) = some t ∧
      s.mem (t + tabEntryLen * key va 2) ≠ 0 := by
    by_contra hc
    refine hsome (htree.lookup_none_iff.2 fun t ht => ?_)
    by_contra hz
    exact hc ⟨t, ht, hz⟩
  obtain ⟨s₁, hloop, hsame⟩ := mapBootstrapLoop_follows h.placed.1 va 4 true root s _ _ (htree.loop_found ht true)
  have hmem : s₁.mem = s.mem := congrArg PageState.mem hsame
  unfold mapBootstrap at hrun
  obtain ⟨-, hrun⟩ := kernelAssert_bind hrun
  obtain ⟨-, hrun⟩ := kernelAssert_bind hrun
  rw [Exec.bind_ok hloop] at hrun
  obtain ⟨_, s₂, hleaf, -⟩ := Exec.bind_eq_ok.1 hrun
  unfold bootstrapLeaf at hleaf
  have hidx : tabEntryIdx va 2 s₁ = .ok (key va 2) s₁ := by
    unfold tabEntryIdx
    rw [Exec.bind_ok (kernelAssert_pos (by omega) _ s₁)]
    rfl
  rw [Exec.bind_ok hidx, Exec.bind_ok (Exec.get_run s₁), hmem] at hleaf
  exact hne (kernelAssert_bind hleaf).1

/-- A call of `_map_bootstrap` for a page that is not mapped. -/
theorem mapBootstrap_run (h : RootPlaced im root) (htree : EarlyTree (view im root h.placed.1) (early s))
    (hva : va % pageSize2M = 0) (hpa : pa % pageSize2M = 0) (hle : pa ≤ va48LowEnd) (hnone : lookup s.mem root va = none) :
    ∃ r s', mapBootstrap im root va pa s = .ok r s' ∧ mapEarly (view im root h.placed.1) true va pa (early s) = .ok r (early s') ∧
      EarlyTree (view im root h.placed.1) (early s') ∧
      (r = true ↔ s.frameCountBootstrap + tablesNeeded (view im root h.placed.1) s.mem va ≤ frameCapBootstrap) ∧
      (r = true → lookup s'.mem root va = some ⟨pa, true, true⟩) ∧
      ∀ va', page2M va' ≠ page2M va → lookup s'.mem root va' = lookup s.mem root va' := by
  obtain ⟨r, p, hrun, htree', hroom, hmapped, helse⟩ := htree.map_run h.early hva hpa hle hnone
  obtain ⟨s', hrun', rfl⟩ := mapBootstrap_follows h.placed.1 va pa r p hrun
  exact ⟨r, s', hrun', hrun, htree', hroom, hmapped, helse⟩

theorem TreeBuilt.tree {h : RootPlaced im root} (hb : TreeBuilt im root h s) : EarlyTree (view im root h.placed.1) (early s) := by
  induction hb with
  | start hstage hcount hzero =>
    have hroot : LowFrame (view im root h.placed.1).tab4 := h.early.tab4
    obtain ⟨htab, hnode⟩ := Tables.root hroot hzero
    refine ⟨htab, decide_eq_true hstage, hcount, fun hq hne => absurd (hnode hq).1 hne, fun hq => ?_⟩
    rw [(hnode hq).1]
    exact Nat.succ_pos _
  | frames hb hle hn ih =>
    refine ⟨ih.tables, ih.stage, hn, fun hq hne => ?_, ih.short⟩
    obtain ⟨k, hk, ht⟩ := ih.pool hq hne
    exact ⟨k, hk.trans_le hle, ht⟩
  | @viaBootstrap s s' va pa r hb hle hrun ih =>
    by_cases hnone : lookup s.mem root va = none
    · obtain ⟨hva, hpa⟩ : va % pageSize2M = 0 ∧ pa % pageSize2M = 0 := by
        unfold mapBootstrap at hrun
        obtain ⟨hva, hrun⟩ := kernelAssert_bind hrun
        exact ⟨of_decide_eq_true hva, of_decide_eq_true (kernelAssert_bind hrun).1⟩
      obtain ⟨r₁, s₁, hrun₁, -, htree, -⟩ := mapBootstrap_run h ih hva hpa hle hnone
      rw [hrun] at hrun₁
      injection hrun₁ with _ hs
      rw [hs]
      exact htree
    · exact absurd hrun (mapBootstrap_occupied h ih hnone r s')
  | @viaEarly s s' va pa ok r hb hle hrun ih =>
    by_cases hnone : lookup s.mem root va = none
    · obtain ⟨hva, hpa⟩ : va % pageSize2M = 0 ∧ pa % pageSize2M = 0 := by
        unfold mapEarly at hrun
        obtain ⟨hva, hrun⟩ := kernelAssert_bind hrun
        exact ⟨mmAlignCheck_iff.1 hva, mmAlignCheck_iff.1 (kernelAssert_bind hrun).1⟩
      obtain ⟨r₁, p, hrun₁, htree, -⟩ := ih.map_run h.early hva hpa hle hnone
      cases hno : node (view im root h.placed.1) s.mem (Radix.path (key va) 2) with
      | none =>
        rw [ih.map_missing hno ok true, hrun₁] at hrun
        injection hrun with _ hs
        rw [← hs]
        exact htree
      | some t =>
        cases ok with
        | true =>
          rw [hrun₁] at hrun
          injection hrun with _ hs
          rw [← hs]
          exact htree
        | false =>
          rw [ih.map_false hva hpa hno] at hrun
          injection hrun with _ hs
          rw [← hs]
          exact ih
    · rw [ih.map_occupied hnone hrun]
      exact ih

/-- The two mappers return the same with the same tables and pool, true with the page mapped if and only if the pool has the missing
tables. -/
def Agree (im : MemImage) (root : Nat) (h : root % pageSize4K = 0) (ok : Bool) (va pa : Nat) (s : MemState) : Prop :=
  ∃ r s', mapBootstrap im root va pa s = .ok r s' ∧ mapEarly (view im root h) ok va pa (early s) = .ok r (early s') ∧
    (r = true ↔ s.frameCountBootstrap + tablesNeeded (view im root h) s.mem va ≤ frameCapBootstrap) ∧
    (r = true → lookup s'.mem root va = some ⟨pa, true, true⟩)

/-- They agree if and only if `ok` happens to be true, or one of the two upper tables is missing. -/
theorem mappers_agree_iff (h : RootPlaced im root) (hb : TreeBuilt im root h s) (hva : va % pageSize2M = 0)
    (hpa : pa % pageSize2M = 0) (hle : pa ≤ va48LowEnd)
    (hzero : ∀ t, node (view im root h.placed.1) s.mem (Radix.path (key va) 2) = some t → s.mem (t + tabEntryLen * key va 2) = 0)
    (ok : Bool) :
    Agree im root h.placed.1 ok va pa s ↔ ok = true ∨ 0 < tablesNeeded (view im root h.placed.1) s.mem va := by
  have htree := hb.tree
  have hnone : lookup s.mem root va = none := htree.lookup_none_iff.2 hzero
  obtain ⟨r, s', hrun, hearly, -, hroom, hmapped, -⟩ := mapBootstrap_run h htree hva hpa hle hnone
  constructor
  · rintro ⟨r₁, s₁, hrun₁, hearly₁, hroom₁, -⟩
    by_contra hc
    obtain ⟨hok, hneed⟩ : ok = false ∧ tablesNeeded (view im root h.placed.1) s.mem va = 0 := by
      cases ok with
      | true => exact absurd (.inl rfl) hc
      | false => exact ⟨rfl, by omega⟩
    obtain ⟨t, ht⟩ := (tablesNeeded_eq_zero_iff _ (early s)).1 hneed
    rw [hok, htree.map_false hva hpa ht] at hearly₁
    injection hearly₁ with hr _
    -- no frame is needed, so `_map_bootstrap` maps the page
    have hcount : s.frameCountBootstrap ≤ frameCapBootstrap := htree.count
    rw [hneed] at hroom₁
    rw [hroom₁.2 (by omega)] at hr
    cases hr
  · intro hcond
    refine ⟨r, s', hrun, ?_, hroom, hmapped⟩
    cases hno : node (view im root h.placed.1) s.mem (Radix.path (key va) 2) with
    | none =>
      rw [htree.map_missing hno ok true]
      exact hearly
    | some t =>
      have hneed := (tablesNeeded_eq_zero_iff (view im root h.placed.1) (early s)).2 ⟨t, hno⟩
      have hneed : tablesNeeded (view im root h.placed.1) s.mem va = 0 := hneed
      rcases hcond with rfl | hpos
      · exact hearly
      · omega

theorem rootPlaced₀ : RootPlaced memImage₀ 0x200000 := ⟨memImage₀.tab4Bootstrap_placed, memImage₀.tab4Bootstrap_apart⟩

theorem treeBuilt₀ : TreeBuilt memImage₀ 0x200000 rootPlaced₀ memState₀ := .start (by decide) (by decide) fun _ => rfl

/-- The tree that a first call of `_map_bootstrap` builds: the first page is mapped, and the tables of its gigabyte are there for
the second one. -/
theorem first_page_mapped : ∃ s, TreeBuilt memImage₀ 0x200000 rootPlaced₀ s ∧ lookup s.mem 0x200000 0 = some ⟨0, true, true⟩ ∧
    lookup s.mem 0x200000 0x200000 = none ∧
    ∃ t, node (view memImage₀ 0x200000 rootPlaced₀.placed.1) s.mem (Radix.path (key 0x200000) 2) = some t := by
  have hnone₀ : ∀ va, lookup memState₀.mem 0x200000 va = none := fun va => treeBuilt₀.tree.lookup_none_iff.2 fun _ _ => rfl
  obtain ⟨r, s, hrun, -, htree, hroom, hmapped, helse⟩ :=
    mapBootstrap_run rootPlaced₀ treeBuilt₀.tree (show 0 % pageSize2M = 0 by decide) (show 0 % pageSize2M = 0 by decide) (by decide)
      (hnone₀ 0)
  have hmapped := hmapped (hroom.2 (by decide))
  refine ⟨s, .viaBootstrap treeBuilt₀ (by decide) hrun, hmapped, (helse 0x200000 (by decide)).trans (hnone₀ _), ?_⟩
  rw [path2_iff.2 (show 0x200000 % 2 ^ 48 / 2 ^ 30 = 0 % 2 ^ 48 / 2 ^ 30 by decide)]
  by_contra hc
  have hempty : lookup s.mem 0x200000 0 = none := htree.lookup_none_iff.2 fun t ht => absurd ⟨t, ht⟩ hc
  rw [hmapped] at hempty
  cases hempty

/-- Behind the first page the two mappers agree on the second one if `ok` happens to be true, and only then. -/
theorem mappers_agree_iff_second : ∃ s, TreeBuilt memImage₀ 0x200000 rootPlaced₀ s ∧
    lookup s.mem 0x200000 0 = some ⟨0, true, true⟩ ∧ Agree memImage₀ 0x200000 rootPlaced₀.placed.1 true 0x200000 0x200000 s ∧
    ¬Agree memImage₀ 0x200000 rootPlaced₀.placed.1 false 0x200000 0x200000 s := by
  obtain ⟨s, hb, hfirst, hnone, ht⟩ := first_page_mapped
  have hneed : tablesNeeded (view memImage₀ 0x200000 rootPlaced₀.placed.1) s.mem 0x200000 = 0 :=
    (tablesNeeded_eq_zero_iff _ (early s)).2 ht
  have hiff := mappers_agree_iff rootPlaced₀ hb (show 0x200000 % pageSize2M = 0 by decide)
    (show 0x200000 % pageSize2M = 0 by decide) (by decide) (hb.tree.lookup_none_iff.1 hnone)
  refine ⟨s, hb, hfirst, (hiff true).2 (.inl rfl), fun hagree => ?_⟩
  rcases (hiff false).1 hagree with hok | hpos
  · cases hok
  · omega

/-- The second page of a gigabyte, with `ok` false on the stack: it is mapped by `_map_bootstrap` and not by `_map_early`. -/
theorem mappers_disagree : ∃ s s', TreeBuilt memImage₀ 0x200000 rootPlaced₀ s ∧ lookup s.mem 0x200000 0x200000 = none ∧
    mapBootstrap memImage₀ 0x200000 0x200000 0x200000 s = .ok true s' ∧
    mapEarly (view memImage₀ 0x200000 rootPlaced₀.placed.1) false 0x200000 0x200000 (early s) = .ok false (early s) := by
  obtain ⟨s, hb, -, hnone, t, ht⟩ := first_page_mapped
  obtain ⟨r, s', hrun, -, -, hroom, -, -⟩ := mapBootstrap_run rootPlaced₀ hb.tree (show 0x200000 % pageSize2M = 0 by decide)
    (show 0x200000 % pageSize2M = 0 by decide) (by decide) hnone
  have hneed : tablesNeeded (view memImage₀ 0x200000 rootPlaced₀.placed.1) s.mem 0x200000 = 0 :=
    (tablesNeeded_eq_zero_iff _ (early s)).2 ⟨t, ht⟩
  have hcount : s.frameCountBootstrap ≤ frameCapBootstrap := hb.tree.count
  have hr : r = true := hroom.2 (by rw [hneed]; exact hcount)
  rw [hr] at hrun
  exact ⟨s, s', hb, hnone, hrun, hb.tree.map_false (by decide) (by decide) ht⟩

end Mem

end Cing
