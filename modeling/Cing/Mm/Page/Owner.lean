/-
Who has a frame. A caller takes frames with `mm_frame_alloc`, maps pages to frames it holds and unmaps
them again; tables come and go in between. The frames there were at the start are at all times on the
free list, tables, targets of one page, or held, and never two of these.
-/
import Cing.Mm.Page.Runs

namespace Cing.Page

open Linked

variable {im : Image} {s₀ s s' : PageState} {F : List Nat} {f x va pa : Nat}

/-- What a caller has: the frames it holds, and the pages it mapped with their frames. -/
structure Owner where
  held : List Nat
  mapped : List (Nat × Nat)

/-- All frames of an owner. -/
def Owner.frames (o : Owner) : List Nat := o.held ++ o.mapped.map Prod.snd

/-- Calls of one caller from a start on: `mm_frame_alloc`, `mm_page_map` of a frame it holds to a page without
translation, and `_unmap` of a page it mapped, with the calls that fail. -/
inductive Owned (im : Image) (s₀ : PageState) : PageState → Owner → Prop
  | start : Owned im s₀ s₀ ⟨[], []⟩
  | alloc {s s' : PageState} {o : Owner} {f : Nat} : Owned im s₀ s o → mmFrameAlloc im s = .ok (some f) s' →
      Owned im s₀ s' ⟨f :: o.held, o.mapped⟩
  | allocFails {s s' : PageState} {o : Owner} : Owned im s₀ s o → mmFrameAlloc im s = .ok none s' → Owned im s₀ s' o
  | map {s s' : PageState} {o : Owner} {va pa : Nat} : Owned im s₀ s o → pa ∈ o.held → pa ≤ va48LowEnd → va % 4096 = 0 →
      va < 2 ^ 64 → lookup s.mem im.tab4 va = none → ¬ SamePage va directVadd → mmPageMap im va pa s = .ok true s' →
      Owned im s₀ s' ⟨o.held.erase pa, (va, pa) :: o.mapped⟩
  | mapFails {s s' : PageState} {o : Owner} {va pa : Nat} : Owned im s₀ s o → pa ∈ o.held → pa ≤ va48LowEnd →
      va % 4096 = 0 → va < 2 ^ 64 → lookup s.mem im.tab4 va = none → ¬ SamePage va directVadd →
      mmPageMap im va pa s = .ok false s' → Owned im s₀ s' o
  | unmap {s s' : PageState} {o : Owner} {va pa r : Nat} : Owned im s₀ s o → (va, pa) ∈ o.mapped →
      unmap im va pageSize4K true s = .ok r s' → Owned im s₀ s' ⟨o.held, o.mapped.erase (va, pa)⟩

/-! ## The invariant -/

/-- A page the owner mapped. -/
structure PageKept (im : Image) (s₀ s : PageState) (e : Nat × Nat) : Prop where
  align : e.1 % 4096 = 0
  lt : e.1 < 2 ^ 64
  fresh : lookup s₀.mem im.tab4 e.1 = none
  here : lookup s.mem im.tab4 e.1 = some ⟨e.2, true, false⟩

/-- What an owner left of the state it started from: the translations of all pages but its own, and the frames, which
are where they were, tables, or its own. -/
structure Kept (im : Image) (s₀ s : PageState) (o : Owner) (F : List Nat) : Prop where
  inv : Inv im s F
  nodup : o.frames.Nodup
  unused : ∀ x ∈ o.frames, Unused im s F x
  page : ∀ e ∈ o.mapped, PageKept im s₀ s e
  elsewhere : ∀ va, (∀ e ∈ o.mapped, ¬ SamePage va e.1) → lookup s.mem im.tab4 va = lookup s₀.mem im.tab4 va
  all : ∀ x, (x ∈ F ∨ IsTable im s x ∨ x ∈ o.frames) ↔ OnFreeList s₀ x ∨ IsTable im s₀ x

theorem Inv.kept (h : Inv im s F) : Kept im s s ⟨[], []⟩ F := by
  refine ⟨h, List.nodup_nil, nofun, nofun, fun _ _ => rfl, fun x => ?_⟩
  rw [h.onFreeList]
  constructor
  · rintro (h | h | h)
    · exact .inl h
    · exact .inr h
    · cases h
  · rintro (h | h)
    · exact .inl h
    · exact .inr (.inl h)

/-- A frame stays unused when the list and the tables grow by none but frames of the list. -/
theorem Unused.mono {F' : List Nat} (h : Unused im s F x) (hF : x ∉ F → x ∉ F') (ht : IsTable im s' x → IsTable im s x ∨ x ∈ F) :
    Unused im s' F' x := by
  refine ⟨h.frame, hF h.notFree, fun q hq => ?_⟩
  rcases ht ⟨q, hq⟩ with ⟨p, hp⟩ | hx
  · exact h.notTable p hp
  · exact h.notFree hx

section Steps

variable {o : Owner}

theorem Kept.alloc (h : Kept im s₀ s o F) (hrun : mmFrameAlloc im s = .ok (some f) s') :
    ∃ F', Kept im s₀ s' ⟨f :: o.held, o.mapped⟩ F' := by
  obtain ⟨F, rfl, -, rfl⟩ := mmFrameAlloc_some h.inv hrun
  obtain ⟨hinv, hu⟩ := h.inv.pop
  have hmem : ∀ x, x ∈ Owner.frames ⟨f :: o.held, o.mapped⟩ ↔ x = f ∨ x ∈ o.frames := fun x => List.mem_cons
  refine ⟨F, hinv, List.nodup_cons.2 ⟨fun hf => (h.unused f hf).notFree (List.mem_cons_self ..), h.nodup⟩, fun x hx => ?_,
    fun e he => ⟨(h.page e he).align, (h.page e he).lt, (h.page e he).fresh, (h.page e he).here⟩, h.elsewhere, fun x => ?_⟩
  · rcases (hmem x).1 hx with rfl | hx
    · exact hu
    · exact (h.unused x hx).mono (fun hn hx => hn (List.mem_cons_of_mem _ hx)) .inl
  · rw [← h.all x, List.mem_cons, hmem]
    show x ∈ F ∨ IsTable im s x ∨ _ ↔ _
    tauto

theorem Kept.allocFails (h : Kept im s₀ s o F) (hrun : mmFrameAlloc im s = .ok none s') : ∃ F', Kept im s₀ s' o F' := by
  obtain ⟨-, rfl⟩ := mmFrameAlloc_none h.inv hrun
  exact ⟨F, h⟩

theorem frames_perm_map (hpa : pa ∈ o.held) (va : Nat) :
    (Owner.frames ⟨o.held.erase pa, (va, pa) :: o.mapped⟩).Perm o.frames :=
  List.perm_middle.trans ((List.perm_cons_erase hpa).symm.append_right _)

theorem frames_perm_unmap (he : (va, pa) ∈ o.mapped) :
    o.frames.Perm (pa :: Owner.frames ⟨o.held, o.mapped.erase (va, pa)⟩) :=
  (((List.perm_cons_erase he).map Prod.snd).append_left _).trans List.perm_middle

theorem Kept.map (h : Kept im s₀ s o F) (hpa : pa ∈ o.held) (hle : pa ≤ va48LowEnd) (hal : va % 4096 = 0) (h64 : va < 2 ^ 64)
    (hnone : lookup s.mem im.tab4 va = none) (hva : ¬ SamePage va directVadd) (hrun : mmPageMap im va pa s = .ok true s') :
    ∃ F', Kept im s₀ s' ⟨o.held.erase pa, (va, pa) :: o.mapped⟩ F' := by
  have hpage : IsPage pa := ⟨(h.unused pa (List.mem_append_left _ hpa)).frame.1, hle⟩
  have hperm := frames_perm_map hpa va
  obtain ⟨F', N, h', rfl, -, hok⟩ := mmPageMap_ok h.inv hal hva hnone hpage hrun
  have hm := hok rfl
  have hother : ∀ e ∈ o.mapped, ¬ SamePage e.1 va := by
    intro e he hs
    have hhere := (h.page e he).here
    rw [lookup_samePage hs, hnone] at hhere
    cases hhere
  refine ⟨F', h', hperm.nodup_iff.2 h.nodup, fun x hx => ?_, ?_, fun va' hva' => ?_, fun x => ?_⟩
  · refine (h.unused x (hperm.mem_iff.1 hx)).mono (fun hn hx => hn (List.mem_append_right _ hx)) fun ht => ?_
    exact (hm.isTable.1 ht).imp_right (List.mem_append_left _)
  · intro e he
    rcases List.mem_cons.1 he with rfl | he
    · exact ⟨hal, h64, (h.elsewhere va fun e he hs => hother e he hs.symm).symm.trans hnone, hm.here va rfl⟩
    · obtain ⟨h1, h2, h3, h4⟩ := h.page e he
      exact ⟨h1, h2, h3, (hm.elsewhere e.1 (hother e he)).trans h4⟩
  · rw [hm.elsewhere va' (hva' _ (List.mem_cons_self ..))]
    exact h.elsewhere va' fun e he => hva' e (List.mem_cons_of_mem _ he)
  · rw [← h.all x, hperm.mem_iff, hm.isTable, List.mem_append]
    tauto

theorem Kept.mapFails (h : Kept im s₀ s o F) (hpa : pa ∈ o.held) (hle : pa ≤ va48LowEnd) (hal : va % 4096 = 0)
    (hnone : lookup s.mem im.tab4 va = none) (hva : ¬ SamePage va directVadd) (hrun : mmPageMap im va pa s = .ok false s') :
    ∃ F', Kept im s₀ s' o F' := by
  have hpage : IsPage pa := ⟨(h.unused pa (List.mem_append_left _ hpa)).frame.1, hle⟩
  obtain ⟨F', N, h', rfl, hfail, -⟩ := mmPageMap_ok h.inv hal hva hnone hpage hrun
  have hg := (hfail rfl).2
  refine ⟨F', h', h.nodup, fun x hx => ?_, fun e he => ?_, fun va' hva' => ?_, fun x => ?_⟩
  · refine (h.unused x hx).mono (fun hn hx => hn (List.mem_append_right _ hx)) fun ht => ?_
    exact (hg.isTable.1 ht).imp_right (List.mem_append_left _)
  · obtain ⟨h1, h2, h3, h4⟩ := h.page e he
    exact ⟨h1, h2, h3, (hg.lookup e.1).trans h4⟩
  · rw [hg.lookup]
    exact h.elsewhere va' hva'
  · rw [← h.all x, hg.isTable, List.mem_append]
    tauto

theorem Kept.unmap {r : Nat} (h : Kept im s₀ s o F) (he : (va, pa) ∈ o.mapped)
    (hrun : Page.unmap im va pageSize4K true s = .ok r s') : ∃ F', Kept im s₀ s' ⟨o.held, o.mapped.erase (va, pa)⟩ F' := by
  have hperm := frames_perm_unmap he
  obtain ⟨hal, h64, hfresh, hl⟩ := h.page _ he
  have hpa : pa ∈ o.frames := hperm.mem_iff.2 (List.mem_cons_self ..)
  obtain ⟨s₁, R, hrun', h', hun⟩ := unmap4K_run h.inv hl rfl hal h64 (h.unused pa hpa)
  rw [hrun] at hrun'
  cases hrun'
  have hnd := List.nodup_cons.1 (hperm.nodup_iff.1 h.nodup)
  -- another page of the owner is another page of addresses
  have hother : ∀ e ∈ o.mapped.erase (va, pa), ¬ SamePage e.1 va := by
    intro e hm hs
    have hel := (h.page e (List.mem_of_mem_erase hm)).here
    rw [lookup_samePage hs, hl] at hel
    have hpe : pa = e.2 := by simpa using hel
    exact hnd.1 (List.mem_append_right _ (List.mem_map.2 ⟨e, hm, hpe.symm⟩))
  refine ⟨R ++ pa :: F, h', hnd.2, fun x hx => ?_, fun e hm => ?_, fun va' hva' => ?_, fun x => ?_⟩
  · have hux := h.unused x (hperm.mem_iff.2 (List.mem_cons_of_mem _ hx))
    refine hux.mono (fun hn hm => ?_) fun ht => .inl (hun.isTable.1 ht).1
    rcases List.mem_append.1 hm with hR | hm
    · obtain ⟨q, hq⟩ := hun.tables x hR
      exact hux.notTable q hq
    · rcases List.mem_cons.1 hm with rfl | hm
      · exact hnd.1 hx
      · exact hn hm
  · obtain ⟨h1, h2, h3, h4⟩ := h.page e (List.mem_of_mem_erase hm)
    exact ⟨h1, h2, h3, (hun.elsewhere e.1 fun hs => hother e hm (samePage_path.2 hs)).trans h4⟩
  · by_cases hs : SamePage va' va
    · rw [hun.here va' (samePage_path.1 hs), lookup_samePage hs, hfresh]
    · rw [hun.elsewhere va' fun e => hs (samePage_path.2 e)]
      refine h.elsewhere va' fun e hm => ?_
      by_cases heq : e = (va, pa)
      · rw [heq]; exact hs
      · exact hva' e ((List.mem_erase_of_ne heq).2 hm)
  · have hR : x ∈ R → IsTable im s x := hun.tables x
    rw [← h.all x, hun.isTable, hperm.mem_iff, List.mem_append, List.mem_cons, List.mem_cons]
    tauto

end Steps

theorem Owned.kept {o : Owner} {F₀ : List Nat} (h₀ : Inv im s₀ F₀) (h : Owned im s₀ s o) : ∃ F, Kept im s₀ s o F := by
  induction h with
  | start => exact ⟨F₀, h₀.kept⟩
  | alloc _ hrun ih => exact ih.choose_spec.alloc hrun
  | allocFails _ hrun ih => exact ih.choose_spec.allocFails hrun
  | map _ hpa hle hal h64 hnone hva hrun ih => exact ih.choose_spec.map hpa hle hal h64 hnone hva hrun
  | mapFails _ hpa hle hal _ hnone hva hrun ih => exact ih.choose_spec.mapFails hpa hle hal hnone hva hrun
  | unmap _ he hrun ih => exact ih.choose_spec.unmap he hrun

/-! ## Roles -/

/-- What a frame is used for. -/
inductive Role where
  | free
  | table
  | leaf
  | held
deriving DecidableEq

/-- The frame is on the free list, a table, the target of a 4K entry, or held by the caller. -/
def HasRole (im : Image) (s : PageState) (o : Owner) : Role → Nat → Prop
  | .free, x => OnFreeList s x
  | .table, x => IsTable im s x
  | .leaf, x => ∃ va l, lookup s.mem im.tab4 va = some l ∧ l.huge = false ∧ l.base = x
  | .held, x => x ∈ o.held

/-- The entry of a table points to the table `x`. -/
def LinksTo (im : Image) (s : PageState) (e : Nat × Fin 512) (x : Nat) : Prop :=
  ∃ p, node im s.mem p = some e.1 ∧ entries s.mem p.length e.1 e.2 = .table x

section Roles

variable {o : Owner}

/-- From a start, the 4K pages are those of the owner. -/
theorem Kept.leaf (h : Kept im s₀ s o F) (h₀ : Start im s₀) {l : Leaf} (hl : lookup s.mem im.tab4 va = some l)
    (hh : l.huge = false) : ∃ e ∈ o.mapped, SamePage va e.1 ∧ l.base = e.2 := by
  by_contra hnot
  have hother : ∀ e ∈ o.mapped, ¬ SamePage va e.1 := by
    intro e he hs
    rw [lookup_samePage hs, (h.page e he).here] at hl
    cases hl
    exact hnot ⟨e, he, hs, rfl⟩
  rw [h.elsewhere va hother] at hl
  rw [h₀.early va l hl] at hh
  cases hh

theorem Kept.leaf_iff (h : Kept im s₀ s o F) (h₀ : Start im s₀) : HasRole im s o .leaf x ↔ x ∈ o.mapped.map Prod.snd := by
  constructor
  · rintro ⟨va, l, hl, hh, rfl⟩
    obtain ⟨e, he, -, hb⟩ := h.leaf h₀ hl hh
    exact List.mem_map.2 ⟨e, he, hb.symm⟩
  · intro hx
    obtain ⟨e, he, rfl⟩ := List.mem_map.1 hx
    exact ⟨e.1, _, (h.page e he).here, rfl, rfl⟩

/-- A frame has a role exactly if it was free or a table at the start. -/
theorem Kept.exists_role (h : Kept im s₀ s o F) (h₀ : Start im s₀) : (∃ r, HasRole im s o r x) ↔ OnFreeList s₀ x ∨
    IsTable im s₀ x := by
  have hframes : x ∈ o.frames ↔ x ∈ o.held ∨ x ∈ o.mapped.map Prod.snd := List.mem_append
  rw [← h.all x, hframes, ← h.leaf_iff h₀]
  constructor
  · rintro ⟨r, hr⟩
    cases r with
    | free => exact .inl (h.inv.onFreeList.1 hr)
    | table => exact .inr (.inl hr)
    | leaf => exact .inr (.inr (.inr hr))
    | held => exact .inr (.inr (.inl hr))
  · rintro (hx | hx | hx | hx)
    · exact ⟨.free, h.inv.onFreeList.2 hx⟩
    · exact ⟨.table, hx⟩
    · exact ⟨.held, hx⟩
    · exact ⟨.leaf, hx⟩

/-- A frame of the owner is neither free nor a table, and either mapped or held. -/
theorem Kept.role_unique (h : Kept im s₀ s o F) (h₀ : Start im s₀) {r r' : Role} (hr : HasRole im s o r x)
    (hr' : HasRole im s o r' x) : r = r' := by
  have hfree : HasRole im s o .free x → x ∈ F := h.inv.onFreeList.1
  have hft : HasRole im s o .free x → ¬ HasRole im s o .table x := fun h1 ⟨q, hq⟩ => h.inv.notTable x (hfree h1) q hq
  have hown : x ∈ o.frames → ¬ HasRole im s o .free x ∧ ¬ HasRole im s o .table x := fun hx =>
    ⟨fun h1 => (h.unused x hx).notFree (hfree h1), fun ⟨q, hq⟩ => (h.unused x hx).notTable q hq⟩
  have hleaf : HasRole im s o .leaf x → x ∈ o.frames := fun h1 => List.mem_append_right _ ((h.leaf_iff h₀).1 h1)
  have hheld : HasRole im s o .held x → x ∈ o.frames := List.mem_append_left _
  have hlh : HasRole im s o .leaf x → ¬ HasRole im s o .held x := fun h1 h2 =>
    (List.nodup_append.1 h.nodup).2.2 x h2 x ((h.leaf_iff h₀).1 h1) rfl
  cases r <;> cases r' <;> first | rfl | tauto

theorem Kept.linksTo_unique (h : Kept im s₀ s o F) (hx : IsTable im s x) (hne : x ≠ im.tab4) : ∃! e, LinksTo im s e x := by
  obtain ⟨q, hq⟩ := hx
  cases q with
  | nil => exact absurd (Option.some.inj hq).symm hne
  | cons i p =>
    obtain ⟨t, ht, hdec⟩ := Radix.node_cons.1 hq
    refine ⟨(t, i), ⟨p, ht, hdec⟩, ?_⟩
    rintro ⟨t', i'⟩ ⟨p', ht', hdec'⟩
    have hq' : node im s.mem (i' :: p') = some x := Radix.node_cons.2 ⟨t', ht', hdec'⟩
    obtain ⟨rfl, rfl⟩ := List.cons.inj (h.inv.tree.inj hq' hq)
    obtain rfl : t' = t := Option.some.inj (ht'.symm.trans ht)
    rfl

end Roles

/-- After every call each frame of the start has exactly one role, and no other frame has one; the free list holds
each of its frames once and `mm_frame_free_count` is its length; a table is linked from one entry, and a frame is
the target of one page and held once. -/
theorem frame_ownership {o : Owner} (h₀ : Start im s₀) (h : Owned im s₀ s o) :
    (∀ x, OnFreeList s₀ x ∨ IsTable im s₀ x → ∃! r, HasRole im s o r x) ∧
    (∀ x r, HasRole im s o r x → OnFreeList s₀ x ∨ IsTable im s₀ x) ∧
    (∃ F, Chain 0 s.mem s.freeHead F ∧ F.Nodup ∧ mmFrameFreeCount s = F.length) ∧
    (∀ x, IsTable im s x → x ≠ im.tab4 → ∃! e, LinksTo im s e x) ∧
    (∀ va va' l l', lookup s.mem im.tab4 va = some l → lookup s.mem im.tab4 va' = some l' → l.huge = false →
      l'.huge = false → l.base = l'.base → SamePage va va') ∧ o.held.Nodup := by
  obtain ⟨F₀, hinv⟩ := h₀.inv
  obtain ⟨F, h⟩ := h.kept hinv
  refine ⟨fun x hx => ?_, fun x r hr => (h.exists_role h₀).1 ⟨r, hr⟩, ⟨F, h.inv.chain, h.inv.nodup, h.inv.count⟩,
    fun x hx hne => h.linksTo_unique hx hne, fun va va' l l' hl hl' hh hh' hb => ?_, (List.nodup_append.1 h.nodup).1⟩
  · obtain ⟨r, hr⟩ := (h.exists_role h₀).2 hx
    exact ⟨r, hr, fun r' hr' => h.role_unique h₀ hr' hr⟩
  · obtain ⟨e, he, hs, hbe⟩ := h.leaf h₀ hl hh
    obtain ⟨e', he', hs', hbe'⟩ := h.leaf h₀ hl' hh'
    have hsnd : e.2 = e'.2 := by rw [← hbe, ← hbe', hb]
    obtain rfl : e = e' := List.inj_on_of_nodup_map (List.nodup_append.1 h.nodup).2.1 he he' hsnd
    exact hs.trans hs'.symm

theorem frame_ownership_first : ∃ s₀ s, Start image₀ s₀ ∧ Owned image₀ s₀ s ⟨[], [(0, 0x400000)]⟩ ∧
    ∃! r, HasRole image₀ s ⟨[], [(0, 0x400000)]⟩ r 0x400000 := by
  obtain ⟨s, -, hstart, hinv, hnone, -⟩ := exists_start
  have hpage : ∀ f ∈ frames₀, IsPage f := fun f hf => (frames₀_spec f hf).1.1
  have hmem : 0x400000 ∈ frames₀ := List.mem_cons_self ..
  have halloc := mmFrameAlloc_cons hinv (hpage _ hmem)
  obtain ⟨s', -, -, hrun, -⟩ := mmPageMap_true hinv.pop.1 rfl (by decide) (hnone 0) (hpage _ hmem)
    (fun f hf => hpage f (List.mem_cons_of_mem _ hf)) (by decide)
  have howned : Owned image₀ s s' ⟨[], [(0, 0x400000)]⟩ :=
    .map (.alloc .start halloc) (List.mem_cons_self ..) (by decide) rfl (by decide) (hnone 0) (by decide) hrun
  exact ⟨s, s', hstart, howned, (frame_ownership hstart howned).1 _ (.inl (hinv.onFreeList.2 hmem))⟩

end Cing.Page
