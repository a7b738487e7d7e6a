/-
The tables below `_tab_4`. They form a tree of frames of the pool, whose entries above the last level
are zero or link to a table, so the walk of `_map_page` never meets a page before the last level. Each
table that is missing on the way of a page takes one frame, and nothing else does: how many frames a
set of pages takes is known before any of them is mapped.
-/
import Cing.Mem.Bootstrap

namespace Cing.Mem

open Exec Page

/-! ## The tree -/

/-- The table at a path below `_tab_4`. -/
abbrev tableAt (im : MemImage) (m : Words) : List (Fin 512) → Option Nat := Radix.node (entries m) im.tab4

/-- An entry is zero or present, and above the last level it links to a table. -/
def Entry (d e : Nat) : Prop := e = 0 ∨ tabEntryIsPresent e = true ∧ (d < 3 → ∃ c, IsPage c ∧ e = c + 3)

/-- The tables below `_tab_4` form a tree of frames of the pool that were handed out. -/
structure Tree (im : MemImage) (s : MemState) : Prop where
  inj : ∀ {p q t}, tableAt im s.mem p = some t → tableAt im s.mem q = some t → p = q
  pool : ∀ {q t}, tableAt im s.mem q = some t → q ≠ [] → ∃ k < s.frameCountBootstrap, t = im.framePoolBootstrap + k * pageSize4K
  entry : ∀ {q t}, tableAt im s.mem q = some t → ∀ i : Fin 512, Entry q.length (s.mem (t + tabEntryLen * i))
  count : s.frameCountBootstrap ≤ frameCapBootstrap
  stage : s.bootStage < memBootstrapStageFinish

section Tree

variable {im : MemImage} {s s' : MemState} {t va pa : Nat} {q : List (Fin 512)}

theorem Tree.frame (h : Tree im s) (hq : tableAt im s.mem q = some t) : LowFrame t := by
  cases q with
  | nil =>
    obtain ⟨h1, h2, h3⟩ := im.tab4_placed
    unfold pageSize4K at h3
    obtain rfl : im.tab4 = t := Option.some.inj hq
    exact ⟨⟨h1, by omega⟩, h2⟩
  | cons i q =>
    obtain ⟨k, hk, rfl⟩ := h.pool hq nofun
    exact poolFrame_low im (hk.trans_le h.count)

theorem Tree.align (h : Tree im s) (hq : tableAt im s.mem q = some t) : t % 4096 = 0 := (h.frame hq).1.bounds.1

/-- The next frame of the pool is no table. -/
theorem Tree.fresh (h : Tree im s) (hc : s.frameCountBootstrap < frameCapBootstrap) (q : List (Fin 512)) :
    tableAt im s.mem q ≠ some (im.framePoolBootstrap + s.frameCountBootstrap * pageSize4K) := by
  intro hq
  cases q with
  | nil => exact im.tab4_apart _ hc (Option.some.inj hq).symm
  | cons i q =>
    obtain ⟨k, hk, he⟩ := h.pool hq nofun
    unfold pageSize4K at he
    omega

/-- A word of a table belongs to one entry of the tree. -/
theorem Tree.word_ne (h : Tree im s) {p : List (Fin 512)} {t' : Nat} {i j : Fin 512} (hp : tableAt im s.mem p = some t)
    (hq : tableAt im s.mem q = some t') (hne : j :: q ≠ i :: p) : t' + tabEntryLen * j ≠ t + tabEntryLen * i := by
  intro he
  obtain ⟨rfl, rfl⟩ := word_inj (h.align hq) (h.align hp) he
  exact hne (by rw [h.inj hp hq])

/-- A zero entry leads to no table. -/
theorem tableAt_none {i : Fin 512} (hq : tableAt im s.mem q = some t) (hz : s.mem (t + tabEntryLen * i) = 0) :
    tableAt im s.mem (i :: q) = none := by
  refine Option.eq_none_iff_forall_ne_some.2 fun x hx => ?_
  obtain ⟨t', ht', hdec⟩ := Radix.node_cons.1 hx
  obtain rfl : t = t' := Option.some.inj (hq.symm.trans ht')
  unfold entries at hdec
  rw [hz, decode_zero] at hdec
  cases hdec

/-- On the way of a page there is a table or nothing. -/
theorem Tree.table_or_zero (h : Tree im s) {d : Nat} (hd : d < 3) (ht : tableAt im s.mem (Radix.path (key va) d) = some t) :
    s.mem (t + tabEntryLen * key va d) = 0 ∨ ∃ c, tableAt im s.mem (Radix.path (key va) (d + 1)) = some c ∧
      tabEntryIsPresent (s.mem (t + tabEntryLen * key va d)) = true ∧ tabEntryGetPadd (s.mem (t + tabEntryLen * key va d)) = c := by
  rcases h.entry ht (key va d) with hz | ⟨hp, hc⟩
  · exact .inl hz
  · rw [Radix.path_length] at hc
    obtain ⟨c, hc, he⟩ := hc hd
    have hdec := decode_value_table hd hc
    refine .inr ⟨c, Radix.node_cons.2 ⟨t, ht, ?_⟩, hp, ?_⟩
    · unfold entries
      rw [he, Radix.path_length]
      exact hdec
    · rw [he]
      exact (decode_eq_table (.value d hc) hdec).2.2.2

/-! ## Linking a table -/

/-- The state after the next frame of the pool was linked at an entry. -/
def withTable (im : MemImage) (s : MemState) (x : Nat) : MemState :=
  { s with
    mem := linked s.mem x (im.framePoolBootstrap + s.frameCountBootstrap * pageSize4K)
    frameCountBootstrap := s.frameCountBootstrap + 1 }

theorem Tree.link (h : Tree im s) {i : Fin 512} (hq : tableAt im s.mem q = some t) (hlen : q.length < 3)
    (hz : s.mem (t + tabEntryLen * i) = 0) (hc : s.frameCountBootstrap < frameCapBootstrap) :
    Tree im (withTable im s (t + tabEntryLen * i)) ∧
      (∀ va, lookup (withTable im s (t + tabEntryLen * i)).mem im.tab4 va = lookup s.mem im.tab4 va) ∧
      tableAt im s.mem (i :: q) = none ∧
      tableAt im (withTable im s (t + tabEntryLen * i)).mem (i :: q) =
        some (im.framePoolBootstrap + s.frameCountBootstrap * pageSize4K) ∧
      ∀ p, p ≠ i :: q → tableAt im (withTable im s (t + tabEntryLen * i)).mem p = tableAt im s.mem p := by
  have hlow := poolFrame_low im hc
  have hfresh := h.fresh hc
  generalize hf : im.framePoolBootstrap + s.frameCountBootstrap * pageSize4K = f at *
  have hmem : (withTable im s (t + tabEntryLen * i)).mem = linked s.mem (t + tabEntryLen * i) f := by rw [← hf]; rfl
  have hword : ∀ p t' (j : Fin 512), tableAt im s.mem p = some t' →
      linked s.mem (t + tabEntryLen * i) f (t' + tabEntryLen * j) =
        Function.update s.mem (t + tabEntryLen * i) (f + 3) (t' + tabEntryLen * j) := fun p t' j hp =>
    linked_word (h.align hp) hlow.1.bounds.1 (fun e => hfresh p (e ▸ hp)) j
  have hself : linked s.mem (t + tabEntryLen * i) f (t + tabEntryLen * i) = f + 3 := by
    rw [hword q t i hq, Function.update_self]
  have helse : ∀ p t' (j : Fin 512), tableAt im s.mem p = some t' → j :: p ≠ i :: q →
      linked s.mem (t + tabEntryLen * i) f (t' + tabEntryLen * j) = s.mem (t' + tabEntryLen * j) := by
    intro p t' j hp hne
    rw [hword p t' j hp, Function.update_of_ne (h.word_ne hq hp hne)]
  have hent : ∀ p t' j, tableAt im s.mem p = some t' → j :: p ≠ i :: q →
      entries (linked s.mem (t + tabEntryLen * i) f) p.length t' j = entries s.mem p.length t' j := by
    intro p t' j hp hne
    unfold entries
    rw [helse p t' j hp hne]
  have hold : entries s.mem q.length t i = .absent := by unfold entries; rw [hz, decode_zero]
  have hnew : entries (linked s.mem (t + tabEntryLen * i) f) q.length t i = .table f := by
    unfold entries
    rw [hself, decode_value_table hlen hlow.1]
  have hempty : ∀ d j, entries (linked s.mem (t + tabEntryLen * i) f) d f j = .absent := by
    intro d j
    unfold entries
    rw [linked_table, decode_zero]
  have hnode := Radix.node_attach hq (by rw [hold]; simp) hnew (by simp [hempty]) hent
  have hcase : ∀ {p x}, tableAt im (linked s.mem (t + tabEntryLen * i) f) p = some x →
      p = i :: q ∧ x = f ∨ p ≠ i :: q ∧ tableAt im s.mem p = some x := Radix.node_attach_cases hnode
  rw [hmem]
  refine ⟨⟨?_, ?_, ?_, Nat.succ_le_of_lt hc, h.stage⟩, fun va => Radix.walk_attach hq hold hnew (hempty _) hent _ 4,
    tableAt_none hq hz, (hnode _).1 rfl, fun p => (hnode p).2⟩
  · rw [hmem]
    exact Radix.node_attach_inj hnode hfresh h.inj
  · rw [hmem]
    intro p x hp hne
    rcases hcase hp with ⟨-, rfl⟩ | ⟨-, hp⟩
    · exact ⟨_, Nat.lt_succ_self _, hf.symm⟩
    · obtain ⟨k, hk, e⟩ := h.pool hp hne
      exact ⟨k, Nat.lt_succ_of_lt hk, e⟩
  · rw [hmem]
    intro p x hp j
    rcases hcase hp with ⟨-, rfl⟩ | ⟨-, hx⟩
    · rw [linked_table]
      exact .inl rfl
    · by_cases hne : j :: p = i :: q
      · obtain ⟨rfl, rfl⟩ := List.cons.inj hne
        obtain rfl : t = x := Option.some.inj (hq.symm.trans hx)
        rw [hself]
        exact .inr ⟨(present_value hlow.1).1, fun _ => ⟨f, hlow.1, rfl⟩⟩
      · rw [helse p x j hx hne]
        exact h.entry hx j

/-! ## Writing a leaf -/

/-- An address that `_tab_entry_init` accepts for a page of 4K. -/
def Target (pa : Nat) : Prop := pa % pageSize4K = 0 ∧ (pa ≤ va48LowEnd ∨ pa ≥ va48HighStart)

theorem IsPage.target (h : IsPage pa) : Target pa := ⟨h.1, .inl h.2⟩

theorem tabEntryInit_run_4K {level : Nat} (h : 1 ≤ level ∧ level ≤ 4) (hp : Target pa) (s : MemState) :
    Mem.tabEntryInit level true true pa pageSize4K s = .ok (pa + 3) s := by
  have hal : memAlignCheck pa pageSize4K = true := decide_eq_true hp.1
  have hlevel : Mem.tabEntryCheck level pageSize4K s = .ok () s := by
    unfold Mem.tabEntryCheck
    split_ifs with h3 h4 h5
    · exact kernelAssert_pos rfl _ s
    · exact kernelAssert_pos (.inl rfl) _ s
    · exact kernelAssert_pos (.inl rfl) _ s
    · omega
  unfold Mem.tabEntryInit
  rw [bind_ok hlevel, bind_ok (kernelAssert_pos hal _ s), bind_ok (kernelAssert_pos hp.2 _ s), ← entry_value hp.1]
  rfl

/-- What the hardware finds behind the entry of a page: the address in it is cut to 52 bits. -/
theorem decode_target (hp : Target pa) : tabEntryIsPresent (pa + 3) = true ∧
    decode 3 (pa + 3) = .leaf ⟨hwPadd (pa + 3), true, false⟩ := by
  have hal : pa % 4096 = 0 := hp.1
  have h1 : tabEntryIsPresent (pa + 3) = true := by
    unfold tabEntryIsPresent
    rw [Nat.testBit_eq_decide_div_mod_eq]
    exact decide_eq_true (by omega)
  have h2 : tabEntryIsWritable (pa + 3) = true := by
    unfold tabEntryIsWritable
    rw [Nat.testBit_eq_decide_div_mod_eq]
    exact decide_eq_true (by omega)
  refine ⟨h1, ?_⟩
  unfold decode
  rw [if_pos h1, if_pos le_rfl, h2]

/-- The state after a leaf was written. -/
def withLeaf (s : MemState) (x pa : Nat) : MemState := { s with mem := Function.update s.mem x (pa + 3) }

theorem Tree.leaf (va : Nat) (h : Tree im s) (ht : tableAt im s.mem (Radix.path (key va) 3) = some t) (hp : Target pa) :
    Tree im (withLeaf s (t + tabEntryLen * key va 3) pa) ∧
      (∀ q, tableAt im (withLeaf s (t + tabEntryLen * key va 3) pa).mem q = tableAt im s.mem q) ∧
      (∀ va', SamePage va' va → lookup (withLeaf s (t + tabEntryLen * key va 3) pa).mem im.tab4 va' =
        some ⟨hwPadd (pa + 3), true, false⟩) ∧
      ∀ va', ¬ SamePage va' va →
        lookup (withLeaf s (t + tabEntryLen * key va 3) pa).mem im.tab4 va' = lookup s.mem im.tab4 va' := by
  obtain ⟨hpres, hdec⟩ := decode_target hp
  have hself : (withLeaf s (t + tabEntryLen * key va 3) pa).mem (t + tabEntryLen * key va 3) = pa + 3 := Function.update_self ..
  have helse : ∀ q t' (j : Fin 512), tableAt im s.mem q = some t' → j :: q ≠ key va 3 :: Radix.path (key va) 3 →
      (withLeaf s (t + tabEntryLen * key va 3) pa).mem (t' + tabEntryLen * j) = s.mem (t' + tabEntryLen * j) :=
    fun q t' j hq hne => Function.update_of_ne (h.word_ne ht hq hne) _ _
  have hent : ∀ q t' j, tableAt im s.mem q = some t' → j :: q ≠ key va 3 :: Radix.path (key va) 3 →
      entries (withLeaf s (t + tabEntryLen * key va 3) pa).mem q.length t' j = entries s.mem q.length t' j := by
    intro q t' j hq hne
    unfold entries
    rw [helse q t' j hq hne]
  have hnode : ∀ q, tableAt im (withLeaf s (t + tabEntryLen * key va 3) pa).mem q = tableAt im s.mem q := by
    refine Radix.node_congr fun q t' hq j c => ?_
    by_cases hne : j :: q = key va 3 :: Radix.path (key va) 3
    · obtain ⟨rfl, rfl⟩ := List.cons.inj hne
      rw [Radix.path_length]
      exact ⟨fun e => absurd e (decode_last _ c), fun e => absurd e (decode_last _ c)⟩
    · rw [hent q t' j hq hne]
  refine ⟨⟨fun hq hq' => ?_, fun hq => ?_, fun {q t'} hq j => ?_, h.count, h.stage⟩, hnode, fun va' hva' => ?_, fun va' hva' => ?_⟩
  · rw [hnode] at hq hq'
    exact h.inj hq hq'
  · rw [hnode] at hq
    exact h.pool hq
  · rw [hnode] at hq
    by_cases hne : j :: q = key va 3 :: Radix.path (key va) 3
    · obtain ⟨rfl, rfl⟩ := List.cons.inj hne
      obtain rfl : t = t' := Option.some.inj (ht.symm.trans hq)
      rw [hself]
      exact .inr ⟨hpres, fun hlt => absurd hlt (by rw [Radix.path_length]; omega)⟩
    · rw [helse q t' j hq hne]
      exact h.entry hq j
  · obtain ⟨hk, hpath⟩ := List.cons.inj (samePage_path.1 hva')
    refine Radix.walk_eq_some.2 ⟨3, by omega, t, ?_, ?_⟩
    · rw [hpath]
      exact (hnode _).trans ht
    · rw [hk]
      show decode 3 _ = _
      rw [hself, hdec]
  · refine Radix.walk_set hent hnode (fun e => hva' (samePage_path.2 ?_)) 4
    rw [Radix.path_length] at e
    exact e

/-! ## Frames -/

/-- The tables of a set of paths that are missing. -/
def missing (im : MemImage) (s : MemState) (P : Finset (List (Fin 512))) : Finset (List (Fin 512)) :=
  P.filter fun q => tableAt im s.mem q = none

/-- The frames in use once the tables of a set of paths are there. -/
def need (im : MemImage) (s : MemState) (P : Finset (List (Fin 512))) : Nat := s.frameCountBootstrap + (missing im s P).card

/-- A table that is missing is still to take a frame. -/
theorem lt_need {P : Finset (List (Fin 512))} (hq : q ∈ P) (hnone : tableAt im s.mem q = none) :
    s.frameCountBootstrap < need im s P :=
  Nat.lt_add_of_pos_right (Finset.card_pos.2 ⟨q, Finset.mem_filter.2 ⟨hq, hnone⟩⟩)

/-- Linking a table changes nothing in the number of frames that are used at the end. -/
theorem need_link {P : Finset (List (Fin 512))} (hq : q ∈ P) (hnone : tableAt im s.mem q = none)
    (hsome : tableAt im s'.mem q ≠ none) (helse : ∀ p, p ≠ q → tableAt im s'.mem p = tableAt im s.mem p)
    (hcount : s'.frameCountBootstrap = s.frameCountBootstrap + 1) : need im s' P = need im s P := by
  have hmiss : missing im s' P = (missing im s P).erase q := by
    ext p
    rw [Finset.mem_erase, missing, missing, Finset.mem_filter, Finset.mem_filter]
    by_cases hp : p = q
    · rw [hp]
      simp [hsome]
    · rw [helse p hp]
      simp [hp]
  have hmem : q ∈ missing im s P := Finset.mem_filter.2 ⟨hq, hnone⟩
  have hpos := Finset.card_pos.2 ⟨q, hmem⟩
  unfold need
  rw [hmiss, Finset.card_erase_of_mem hmem, hcount]
  omega

/-! ## _map_page -/

/-- What linking the tables on the way of `va` keeps, and how many frames that takes. -/
structure Grown (im : MemImage) (va : Nat) (s s' : MemState) : Prop where
  tree : Tree im s'
  lookup : ∀ va', lookup s'.mem im.tab4 va' = lookup s.mem im.tab4 va'
  need : ∀ P : Finset (List (Fin 512)), (∀ d < 3, Radix.path (key va) (d + 1) ∈ P) → need im s' P = need im s P
  fb : s'.fb = s.fb ∧ s'.fbLen = s.fbLen

theorem Grown.refl (h : Tree im s) (va : Nat) : Grown im va s s := ⟨h, fun _ => rfl, fun _ _ => rfl, rfl, rfl⟩

theorem Grown.trans {s'' : MemState} (h : Grown im va s s') (h' : Grown im va s' s'') : Grown im va s s'' :=
  ⟨h'.tree, fun va' => (h'.lookup va').trans (h.lookup va'), fun P hP => (h'.need P hP).trans (h.need P hP),
    h'.fb.1.trans h.fb.1, h'.fb.2.trans h.fb.2⟩

/-- The pool has too few frames for the tables on the way of `va`. -/
def UsedUp (im : MemImage) (va : Nat) (s : MemState) : Prop :=
  ∀ P : Finset (List (Fin 512)), (∀ d < 3, Radix.path (key va) (d + 1) ∈ P) → frameCapBootstrap < need im s P

/-- A round of `_map_page` finds the table, links the next frame of the pool, or stops because the pool is used up. -/
theorem Tree.pageTable_run (h : Tree im s) {d : Nat} (hd : d < 3) (ht : tableAt im s.mem (Radix.path (key va) d) = some t) :
    (∃ c, pageTable im (4 - d) (t + tabEntryLen * key va d) s = .ok c s ∧ tableAt im s.mem (Radix.path (key va) (d + 1)) = some c) ∨
    s.mem (t + tabEntryLen * key va d) = 0 ∧ (s.frameCountBootstrap < frameCapBootstrap ∧
        pageTable im (4 - d) (t + tabEntryLen * key va d) s =
          .ok (im.framePoolBootstrap + s.frameCountBootstrap * pageSize4K) (withTable im s (t + tabEntryLen * key va d)) ∨
      ¬ s.frameCountBootstrap < frameCapBootstrap ∧
        pageTable im (4 - d) (t + tabEntryLen * key va d) s = .error (.assertFail "ok") s) := by
  unfold pageTable
  rw [bind_ok (get_run s)]
  rcases h.table_or_zero hd ht with hz | ⟨c, hc, hpres, hpadd⟩
  · refine .inr ⟨hz, ?_⟩
    rw [hz, if_neg (by decide), bind_ok (kernelAssert_pos rfl _ s)]
    by_cases hcap : s.frameCountBootstrap < frameCapBootstrap
    · have hlow := poolFrame_low im hcap
      have halloc : memFrameAlloc im s = .ok (some (im.framePoolBootstrap + s.frameCountBootstrap * pageSize4K))
          { s with frameCountBootstrap := s.frameCountBootstrap + 1 } := by
        unfold memFrameAlloc
        rw [bind_ok (get_run s), bind_ok (kernelAssert_pos h.stage _ s), if_pos hcap]
        rfl
      have hword : (withTable im s (t + tabEntryLen * key va d)).mem (t + tabEntryLen * key va d) =
          im.framePoolBootstrap + s.frameCountBootstrap * pageSize4K + 3 := by
        show linked s.mem _ _ _ = _
        rw [linked_word (h.align ht) hlow.1.bounds.1 fun e => h.fresh hcap _ (e ▸ ht), Function.update_self]
      have hpadd := (decode_eq_table (.value d hlow.1) (decode_value_table hd hlow.1)).2.2.2
      refine .inl ⟨hcap, ?_⟩
      rw [bind_ok halloc]
      show (kernelAssert (im.framePoolBootstrap + s.frameCountBootstrap * pageSize4K ≠ 0) _ >>= fun _ => _) _ = _
      rw [bind_ok (kernelAssert_pos hlow.2.ne' _ _), bind_ok (tabEntryInit_run_4K (by omega) (IsPage.target hlow.1) _)]
      show EStateM.Result.ok
        (tabEntryGetPadd ((withTable im s (t + tabEntryLen * key va d)).mem (t + tabEntryLen * key va d))) _ = _
      rw [hword, hpadd]
      rfl
    · have halloc : memFrameAlloc im s = .ok none s := by
        unfold memFrameAlloc
        rw [bind_ok (get_run s), bind_ok (kernelAssert_pos h.stage _ s), if_neg hcap]
        rfl
      refine .inr ⟨hcap, ?_⟩
      rw [bind_ok halloc]
      rfl
  · refine .inl ⟨c, ?_, hc⟩
    rw [if_pos hpres, hpadd]
    rfl

/-- What a round keeps, and when it stops. -/
theorem pageTable_cases (h : Tree im s) {d : Nat} (hd : d < 3) (ht : tableAt im s.mem (Radix.path (key va) d) = some t) :
    (∃ c s', pageTable im (4 - d) (t + tabEntryLen * key va d) s = .ok c s' ∧ Grown im va s s' ∧
      tableAt im s'.mem (Radix.path (key va) (d + 1)) = some c) ∨
    (∃ e s', pageTable im (4 - d) (t + tabEntryLen * key va d) s = .error e s') ∧ UsedUp im va s := by
  rcases h.pageTable_run hd ht with ⟨c, hrun, hc⟩ | ⟨hz, ⟨hcap, hrun⟩ | ⟨hcap, hrun⟩⟩
  · exact .inl ⟨c, s, hrun, .refl h va, hc⟩
  · obtain ⟨h', hlook, hnone, hsome, helse⟩ := h.link (i := key va d) ht (by rw [Radix.path_length]; exact hd) hz hcap
    refine .inl ⟨_, _, hrun, ⟨h', hlook, fun P hP => ?_, rfl, rfl⟩, hsome⟩
    exact need_link (hP d hd) hnone (fun e => by cases hsome.symm.trans e) helse rfl
  · exact .inr ⟨⟨_, s, hrun⟩, fun P hP => (not_lt.1 hcap).trans_lt (lt_need (hP d hd) (tableAt_none ht hz))⟩

theorem tabEntryIdx_run {level : Nat} (h : 1 ≤ level ∧ level ≤ 4) (va : Nat) (s : MemState) :
    tabEntryIdx va level s = .ok (tabIndex va level) s := by
  unfold tabEntryIdx
  rw [bind_ok (kernelAssert_pos (by omega) _ s)]
  rfl

/-- The loop of `_map_page` ends with the table of the last level, unless the pool is used up. -/
theorem mapPageLoop_cases (va : Nat) : ∀ {lv d t : Nat} {s : MemState}, lv + d = 3 → Tree im s →
    tableAt im s.mem (Radix.path (key va) d) = some t →
    (∃ c s', mapPageLoop im va (lv + 1) t s = .ok c s' ∧ Grown im va s s' ∧ tableAt im s'.mem (Radix.path (key va) 3) = some c) ∨
    (∃ e s', mapPageLoop im va (lv + 1) t s = .error e s') ∧ UsedUp im va s
  | 0, d, t, s, hd, h, ht => by
    obtain rfl : d = 3 := by omega
    exact .inl ⟨t, s, rfl, .refl h va, ht⟩
  | lv + 1, d, t, s, hd, h, ht => by
    have hkey : tabIndex va (lv + 2) = key va d := by unfold key; rw [show 4 - d = lv + 2 by omega]
    have hround := pageTable_cases h (by omega) ht
    rw [show 4 - d = lv + 2 by omega] at hround
    rw [mapPageLoop, bind_ok (tabEntryIdx_run (by omega) va s), hkey]
    rcases hround with ⟨c, s₁, hrun, hg, hc⟩ | ⟨⟨e, s₁, hrun⟩, hused⟩
    · rw [bind_ok hrun]
      rcases mapPageLoop_cases va (show lv + (d + 1) = 3 by omega) hg.tree hc with ⟨c', s₂, hrun', hg', hc'⟩ | ⟨herr, hused⟩
      · exact .inl ⟨c', s₂, hrun', hg.trans hg', hc'⟩
      · refine .inr ⟨herr, fun P hP => ?_⟩
        rw [← hg.need P hP]
        exact hused P hP
    · rw [bind_error hrun]
      exact .inr ⟨⟨e, s₁, rfl⟩, hused⟩

/-- What `_map_page` leaves. -/
structure MappedPage (im : MemImage) (va pa : Nat) (s s' : MemState) : Prop where
  tree : Tree im s'
  here : ∀ va', SamePage va' va → lookup s'.mem im.tab4 va' = some ⟨hwPadd (pa + 3), true, false⟩
  other : ∀ va', ¬ SamePage va' va → lookup s'.mem im.tab4 va' = lookup s.mem im.tab4 va'
  need : ∀ P : Finset (List (Fin 512)), (∀ d < 3, Radix.path (key va) (d + 1) ∈ P) → need im s' P = need im s P
  fb : s'.fb = s.fb ∧ s'.fbLen = s.fbLen

/-- The entry of a page in the last level is zero exactly if the page has no translation. -/
theorem Tree.zero_iff (h : Tree im s) (ht : tableAt im s.mem (Radix.path (key va) 3) = some t) :
    s.mem (t + tabEntryLen * key va 3) = 0 ↔ lookup s.mem im.tab4 va = none := by
  constructor
  · intro hz
    refine (Radix.walk_of_node 1 ht).trans ?_
    unfold Radix.walk entries
    rw [hz, decode_zero]
  · intro hnone
    rcases h.entry ht (key va 3) with hz | ⟨hp, -⟩
    · exact hz
    · have hl : lookup s.mem im.tab4 va = some ⟨hwPadd (s.mem (t + tabEntryLen * key va 3)),
          tabEntryIsWritable (s.mem (t + tabEntryLen * key va 3)), false⟩ := by
        refine Radix.walk_eq_some.2 ⟨3, by omega, t, ht, ?_⟩
        unfold entries decode
        rw [if_pos hp, if_pos le_rfl]
      rw [hnone] at hl
      cases hl

theorem tabEntryInit_ok {level e : Nat} (h : 1 ≤ level ∧ level ≤ 4)
    (hrun : Mem.tabEntryInit level true true pa pageSize4K s = .ok e s') : Target pa ∧ e = pa + 3 ∧ s' = s := by
  have hp : Target pa := by
    unfold Mem.tabEntryInit at hrun
    obtain ⟨_, s₁, -, h1⟩ := bind_eq_ok.1 hrun
    obtain ⟨_, s₂, hal, h2⟩ := bind_eq_ok.1 h1
    obtain ⟨_, s₃, hle, -⟩ := bind_eq_ok.1 h2
    exact ⟨of_decide_eq_true (kernelAssert_ok hal).1, (kernelAssert_ok hle).1⟩
  rw [tabEntryInit_run_4K h hp] at hrun
  cases hrun
  exact ⟨hp, rfl, rfl⟩

/-- Once the tables are there, `_map_page` writes one entry. -/
theorem Grown.mapped {s₁ : MemState} (h : Grown im va s s₁) (ht : tableAt im s₁.mem (Radix.path (key va) 3) = some t)
    (hp : Target pa) : MappedPage im va pa s (withLeaf s₁ (t + tabEntryLen * key va 3) pa) := by
  obtain ⟨htree, hnode, hhere, hother⟩ := h.tree.leaf va ht hp
  refine ⟨htree, hhere, fun va' hva' => (hother va' hva').trans (h.lookup va'), fun P hP => ?_, h.fb⟩
  rw [← h.need P hP]
  unfold Mem.need missing
  simp only [hnode]
  rfl

/-- If `_map_page` returns, the page had no translation, and it has one now. -/
theorem mapPage_ok (h : Tree im s) (hrun : mapPage im im.tab4 va pa s = .ok () s') :
    lookup s.mem im.tab4 va = none ∧ Target pa ∧ MappedPage im va pa s s' := by
  unfold mapPage at hrun
  obtain ⟨_, s₁, h1, hrun⟩ := bind_eq_ok.1 hrun
  obtain ⟨_, s₂, h2, hrun⟩ := bind_eq_ok.1 hrun
  rw [(kernelAssert_ok h2).2, (kernelAssert_ok h1).2] at hrun
  rcases mapPageLoop_cases va (show 3 + 0 = 3 from rfl) h rfl with ⟨c, s₃, hloop, hg, hc⟩ | ⟨⟨e, s₃, hloop⟩, -⟩
  · rw [bind_ok hloop, bind_ok (tabEntryIdx_run (by omega) va s₃), bind_ok (get_run s₃)] at hrun
    obtain ⟨_, s₄, h4, hrun⟩ := bind_eq_ok.1 hrun
    obtain ⟨hz, e4⟩ := kernelAssert_ok h4
    rw [e4] at hrun
    obtain ⟨e, s₅, h5, hpoke⟩ := bind_eq_ok.1 hrun
    obtain ⟨hp, he, hs⟩ := tabEntryInit_ok (by omega) h5
    rw [he, hs] at hpoke
    cases hpoke
    exact ⟨(hg.lookup va).symm.trans ((hg.tree.zero_iff hc).1 hz), hp, hg.mapped hc hp⟩
  · rw [bind_error hloop] at hrun
    cases hrun

/-- `_map_page` returns if the page has no translation and the pool has the frames. -/
theorem mapPage_run (h : Tree im s) (hva : va % pageSize4K = 0) (hp : Target pa) (hnone : lookup s.mem im.tab4 va = none)
    {P : Finset (List (Fin 512))} (hP : ∀ d < 3, Radix.path (key va) (d + 1) ∈ P) (hneed : need im s P ≤ frameCapBootstrap) :
    ∃ s', mapPage im im.tab4 va pa s = .ok () s' ∧ MappedPage im va pa s s' := by
  have hal : memAlignCheck va pageSize4K = true := decide_eq_true hva
  have hal' : memAlignCheck pa pageSize4K = true := decide_eq_true hp.1
  rcases mapPageLoop_cases va (show 3 + 0 = 3 from rfl) h rfl with ⟨c, s₁, hloop, hg, hc⟩ | ⟨-, hused⟩
  · have hz : s₁.mem (c + tabEntryLen * tabIndex va 1) = 0 := (hg.tree.zero_iff hc).2 ((hg.lookup va).trans hnone)
    refine ⟨_, ?_, hg.mapped hc hp⟩
    unfold mapPage
    rw [bind_ok (kernelAssert_pos hal _ s), bind_ok (kernelAssert_pos hal' _ s), bind_ok hloop,
      bind_ok (tabEntryIdx_run (by omega) va s₁), bind_ok (get_run s₁), bind_ok (kernelAssert_pos hz _ s₁),
      bind_ok (tabEntryInit_run_4K (by omega) hp s₁)]
    rfl
  · exact absurd (hused P hP) (not_lt.2 hneed)

end Tree

end Cing.Mem
