/-
Where page tables lie. The frames of the early stage come from the static pool, the tables of the window
should come from `_direct_tab_space`, and all others are frames that `mm_frame_alloc` took off the list.
But `_direct_tab` moves on by 4096 entries, not by 4096 bytes, from one table to the next: the second and
the third table lie 32K and 64K behind the start of a space of 12K. Only where the linker put the pool
right behind the space, and the early stage left enough of it, does this touch nothing else.
-/
import Cing.Mm.Page.Pool

namespace Cing.Page

open Linked

variable {im : Image} {mach : Machine} {s₀ s s' : PageState} {F : List Nat} {A : Set Nat} {t : Nat}

/-! ## Memory of the paging code -/

/-- The page `[t, t + 4K)` lies in `_direct_tab_space`. -/
def InSpace (im : Image) (t : Nat) : Prop := im.directTabSpace ≤ t ∧ t + pageSize4K ≤ im.directTabSpace + 3 * pageSize4K

/-- The page lies in `_early_frame_pool`. -/
def InPool (im : Image) (t : Nat) : Prop := im.earlyFramePool ≤ t ∧ t + pageSize4K ≤ im.earlyFramePool + earlyFrameCap * pageSize4K

/-- The tables of the window that miss the space lie in the pool, behind the frames handed out. -/
def WindowInPool (im : Image) (s : PageState) : Prop :=
  ∀ i, i = 1 ∨ i = 2 → ∃ k, s.earlyFrameCount ≤ k ∧ k < earlyFrameCap ∧ directTab im i = poolFrame im k

theorem inPool_poolFrame {k : Nat} (hk : k < earlyFrameCap) : InPool im (poolFrame im k) := by
  unfold InPool poolFrame pageSize4K
  omega

theorem WindowInPool.apart (h : WindowInPool im s) (hc : s.earlyFrameCount ≤ earlyFrameCap)
    (hspace : ∀ k < earlyFrameCap, im.directTabSpace ≠ poolFrame im k) : Apart im s := by
  intro i hi k hk he
  have hwin : i = 1 ∨ i = 2 → False := by
    intro h12
    obtain ⟨k', h1, -, h2⟩ := h i h12
    rw [h2] at he
    unfold poolFrame pageSize4K at he
    omega
  have h12 : ¬ (i = 1 ∨ i = 2) := hwin
  obtain rfl : i = 0 := by omega
  refine hspace k (by omega) ?_
  rw [← he]
  unfold directTab
  omega

/-! ## Frames taken off the list -/

/-- One call, or one write of memory in between, with the contract of `Reach`. -/
inductive Step (im : Image) : PageState → PageState → Prop
  | alloc {s s' : PageState} {r : Option Nat} : mmFrameAlloc im s = .ok r s' → Step im s s'
  | free {s s' : PageState} {va f : Nat} : NotInUse im s f → translate s.mem im.tab4 va = some f →
      mmFrameFree im va f s = .ok () s' → Step im s s'
  | freeWindow {s s' : PageState} {f : Nat} : NotInUse im s f → returnFrame im f s = .ok () s' → Step im s s'
  | map {s s' : PageState} {va pa : Nat} {ok : Bool} : va % 4096 = 0 → ¬ SamePage va directVadd →
      lookup s.mem im.tab4 va = none → IsPage pa → mmPageMap im va pa s = .ok ok s' → Step im s s'
  | unmap {s s' : PageState} {va pa : Nat} {l : Leaf} {free : Bool} : va < 2 ^ 64 →
      lookup s.mem im.tab4 va = some l → va % l.size = 0 → (free = true → ∀ f ∈ l.frames, NotInUse im s f) →
      unmap im va l.size free s = .ok pa s' → Step im s s'
  | write {s : PageState} {x v : Nat} : (∀ t, IsTable im s t → x < t ∨ t + 4096 ≤ x) → ¬ OnFreeList s x →
      Step im s (withWord s x v)

theorem Reach.step (h : Reach im s) (hs : Step im s s') : Reach im s' := by
  cases hs with
  | alloc hrun => exact h.alloc hrun
  | free hf ht hrun => exact h.free hf ht hrun
  | freeWindow hf hrun => exact h.freeWindow hf hrun
  | map hal hva hnone hpa hrun => exact h.map hal hva hnone hpa hrun
  | unmap h64 hl hal hfree hrun => exact h.unmap h64 hl hal hfree hrun
  | write ht hx => exact h.write ht hx

/-- A run from `s₀` to a state, and the frames that `mm_frame_alloc` took off the list for a call of the run and that
were not back at its end. -/
inductive Taken (im : Image) (s₀ : PageState) : PageState → Set Nat → Prop
  | start : Taken im s₀ s₀ ∅
  | step {s s' : PageState} {A : Set Nat} : Taken im s₀ s A → Step im s s' →
      Taken im s₀ s' (A ∪ {f | OnFreeList s f ∧ ¬ OnFreeList s' f})

/-- A call makes a table of a frame of the list only, and that frame leaves the list. -/
theorem Step.isTable (h : Step im s s') (hinv : Inv im s F) (ht : IsTable im s' t) :
    IsTable im s t ∨ OnFreeList s t ∧ ¬ OnFreeList s' t := by
  cases h with
  | alloc hrun =>
    cases F with
    | nil =>
      rw [mmFrameAlloc_nil hinv] at hrun
      cases hrun
      exact .inl ht
    | cons f F =>
      rw [mmFrameAlloc_cons hinv (mmFrameAlloc_page hinv hrun)] at hrun
      cases hrun
      exact .inl ht
  | @free _ va f hf htr hrun =>
    rw [mmFrameFree_run f htr] at hrun
    cases hrun
    obtain ⟨q, hq⟩ := ht
    exact .inl ⟨q, ((hinv.push (hinv.unused hf)).2.1 q).symm.trans hq⟩
  | freeWindow hf hrun =>
    rw [returnFrame_run hinv (hinv.unused hf) (returnFrame_page hinv hf.1 hrun)] at hrun
    cases hrun
    obtain ⟨q, hq⟩ := ht
    exact .inl ⟨q, ((hinv.push (hinv.unused hf)).2.1 q).symm.trans hq⟩
  | @map _ va pa ok hal hva hnone hpa hrun =>
    obtain ⟨F', N, h', rfl, hfail, hok⟩ := mmPageMap_ok hinv hal hva hnone hpa hrun
    have hnew : IsTable im s t ∨ t ∈ N := by
      cases ok with
      | true => exact (hok rfl).isTable.1 ht
      | false => exact (hfail rfl).2.isTable.1 ht
    refine hnew.imp_right fun hN => ⟨hinv.onFreeList.2 (List.mem_append_left _ hN), fun hF' => ?_⟩
    exact (List.nodup_append.1 hinv.nodup).2.2 t hN t (h'.onFreeList.1 hF') rfl
  | unmap h64 hl hal hfree hrun =>
    obtain ⟨s₁, F₁, hrun₁, h₁, hsame, -⟩ := unmapFree_run hinv hl hal h64 fun hf f hm => hinv.unused (hfree hf f hm)
    obtain ⟨s', R, hrun', h', hun⟩ := unmap_run hinv hl hal hrun₁ h₁ hsame
    rw [hrun] at hrun'
    cases hrun'
    exact .inl (hun.isTable.1 ht).1
  | @write x v hx hf =>
    have hcongr := hinv.congr (Function.update s.mem x v) (fun q t hq i => Function.update_of_ne ?_ _ _)
      fun f hm => Function.update_of_ne ?_ _ _
    · obtain ⟨q, hq⟩ := ht
      exact .inl ⟨q, (hcongr.2.1 q).symm.trans hq⟩
    · have := hx t ⟨q, hq⟩
      have hi := i.isLt
      unfold tabEntryLen
      omega
    · rintro rfl
      exact hf (hinv.onFreeList.2 hm)

/-- The tables are those of the start and frames taken off the list. -/
theorem Taken.spec (h₀ : Reach im s₀) (h : Taken im s₀ s A) :
    Reach im s ∧ ∀ t, IsTable im s t → IsTable im s₀ t ∨ t ∈ A := by
  induction h with
  | start => exact ⟨h₀, fun _ => .inl⟩
  | step _ hs ih =>
    obtain ⟨hreach, htab⟩ := ih
    obtain ⟨F, hinv⟩ := hreach.inv
    refine ⟨hreach.step hs, fun t ht => ?_⟩
    rcases hs.isTable hinv ht with ht | ht
    · exact (htab t ht).imp_right .inl
    · exact .inr (.inr ht)

/-! ## The placement -/

/-- A run after boot: the early stage ends in `s`, `_init_direct_access` in `s₁`, and calls lead to `s'` and take the frames
`A`. -/
structure Runs (im : Image) (mach : Machine) (s s₁ s' : PageState) (A : Set Nat) : Prop where
  early : ∃ garbage n e s₀, s₀.isEarlyStage = true ∧ s₀.earlyFrameCount = 0 ∧ mmPageEarlyBootstrap im mach garbage n s₀ = .ok e s
  init : initDirectAccess im (frameBootstrapped s) = .ok () s₁
  calls : Taken im s₁ s' A

/-- If the tables of the window that miss their space are in the unused part of the pool, then every table lies in the
space, in the pool, or in a frame from `mm_frame_alloc`, and two tables share no byte. -/
theorem tables_in_owned_memory {s₁ : PageState} (hk : KernelPlaced im mach)
    (hspace : ∀ k < earlyFrameCap, im.directTabSpace ≠ poolFrame im k)
    (hwin : WindowInPool im s) (h : Runs im mach s s₁ s' A) :
    (∀ t, IsTable im s' t → t ≠ im.tab4 → InSpace im t ∨ InPool im t ∨ t ∈ A) ∧
    ∀ t t', IsTable im s' t → IsTable im s' t' → t ≠ t' → t + pageSize4K ≤ t' ∨ t' + pageSize4K ≤ t := by
  obtain ⟨garbage, n, e, s₀, hstage, hcount, hearly⟩ := h.early
  have hid := mmPageEarlyBootstrap_ok hk.toEarlyPlaced hstage hcount hearly
  have hap := hwin.apart hid.count hspace
  have harray := initDirectAccess_array h.init
  have hhuge : ∀ va l, lookup (frameBootstrapped s).mem im.tab4 va = some l → l.huge = true := by
    intro va l hl
    rcases lt_or_ge (page2M va) e with hlt | hge
    · have hl : lookup s.mem im.tab4 va = some l := hl
      rw [hid.here va hlt] at hl
      cases hl
      rfl
    · have hl : lookup s.mem im.tab4 va = some l := hl
      rw [hid.above va hge] at hl
      cases hl
  obtain ⟨s₂, hinit, hstart⟩ := (hid.early hk hap harray).start hhuge
  obtain ⟨s₃, hinit', -, hsrc⟩ := hid.begin hk hap harray
  rw [h.init] at hinit hinit'
  cases hinit
  cases hinit'
  obtain ⟨hreach, htab⟩ := h.calls.spec (.start hstart)
  obtain ⟨F, hinv⟩ := hreach.inv
  refine ⟨fun t ht hne => ?_, fun t t' ⟨q, hq⟩ ⟨q', hq'⟩ hne => ?_⟩
  · rcases htab t ht with ht | ht
    · rcases hsrc t ht with rfl | ⟨i, hi, rfl⟩ | ⟨-, k, hlt, rfl⟩
      · exact absurd rfl hne
      · by_cases h0 : i = 0
        · subst h0
          refine .inl ?_
          unfold InSpace directTab pageSize4K
          omega
        · obtain ⟨k, -, hcap, he⟩ := hwin i (by omega)
          rw [he]
          exact .inr (.inl (inPool_poolFrame hcap))
      · exact .inr (.inl (inPool_poolFrame (hlt.trans_le hid.count)))
    · exact .inr (.inr ht)
  · have h1 := hinv.tree.align hq
    have h2 := hinv.tree.align hq'
    unfold pageSize4K
    omega

theorem image₁_placed₂ : KernelPlaced image₁ machine₂ :=
  have hk : KernelPlaced image₁ machine₀ := machine₀_placed (by decide) (by decide) rfl (by decide) (by decide)
  ⟨hk.toEarlyPlaced, by decide, by decide, by decide, hk.pool_lt, hk.direct⟩

theorem image₁_space : ∀ k < earlyFrameCap, image₁.directTabSpace ≠ poolFrame image₁ k := by
  intro k _
  unfold poolFrame image₁
  simp only
  omega

/-- The pool right behind the space: the first 2M page is unmapped, with its frames. -/
theorem first_page_unmapped : ∃ s s₁ s₂ A F, WindowInPool image₁ s ∧ Runs image₁ machine₂ s s₁ s₂ A ∧
    lookup s₁.mem image₁.tab4 0x5200000 = some ⟨0x5200000, true, true⟩ ∧ Inv image₁ s₂ F ∧ (∀ f ∈ F, IsPage f) ∧ 5 ≤ F.length ∧
    lookup s₂.mem image₁.tab4 0x40000000 = none := by
  have hk := image₁_placed₂
  obtain ⟨e, s, hearly, hle, hlt, htwo⟩ :=
    mmPageEarlyBootstrap_run hk.toEarlyPlaced (s := { early₀ with isEarlyStage := true }) rfl rfl
    (fun _ => rfl) (show ∀ s, mmPaEnd machine₂ s = .ok 0x7200000 s from fun _ => rfl) (by decide) (by decide)
      (by decide) (by norm_num)
  have hid := mmPageEarlyBootstrap_ok hk.toEarlyPlaced rfl rfl hearly
  have hwin : WindowInPool image₁ s := by
    rintro i (rfl | rfl)
    · exact ⟨5, by omega, by decide, rfl⟩
    · exact ⟨13, by omega, by decide, rfl⟩
  obtain ⟨s₁, hinit, hun, htab⟩ := hid.begin hk (hwin.apart hid.count image₁_space) rfl
  have htab' : ∀ t, IsTable image₁ s₁ t → t = image₁.tab4 ∨ (∃ i < 3, t = directTab image₁ i) ∨ ∃ k < earlyFrameCap,
      t = poolFrame image₁ k := by
    intro t ht
    refine (htab t ht).imp_right (Or.imp_right ?_)
    rintro ⟨-, k, hk', rfl⟩
    exact ⟨k, hk'.trans_le hid.count, rfl⟩
  have hlow : ∀ t, IsTable image₁ s₁ t → t < firstPage machine₂ := fun t ht => hk.table_lt hid htab ht
  have hfirst : firstPage machine₂ = 0x5200000 := rfl
  have hout : bootstrapPaInsidePcieCfgSpace machine₂ 0x5200000 = false := by decide
  have hfree : freeFrame machine₂ 0x5200000 = true := by decide
  rw [hfirst] at hun
  have hinside : 0x5200000 < e := by omega
  have hl := hun.here _ hun.align le_rfl hinside
  obtain ⟨s₂, F, hpage, hun₂⟩ := hun.round hlow hinside hid.le hout
  obtain ⟨pa, hrun⟩ : ∃ pa, unmap image₁ 0x5200000 pageSize2M true s₁ = .ok pa s₂ := by
    unfold bootstrapUnmapPage at hpage
    rw [hout, if_neg (by decide), hfree] at hpage
    obtain ⟨pa, s₂', hrun, hend⟩ := Exec.bind_eq_ok.1 hpage
    cases hend
    exact ⟨pa, hrun⟩
  have hunused : ∀ f ∈ Leaf.frames ⟨0x5200000, true, true⟩, NotInUse image₁ s₁ f := by
    intro f hf
    obtain ⟨k, hk', rfl⟩ := List.mem_map.1 hf
    have hu := hun.unused hlow hinside hid.le (List.mem_range.1 hk')
    exact ⟨hu.frame, fun h => hu.notFree (hun.inv.onFreeList.1 h), fun ⟨q, hq⟩ => hu.notTable q hq⟩
  have hsub : (List.range 5).map (fun k => 0x5200000 + 4096 * k) ⊆ F := by
    intro f hf
    obtain ⟨k, hk', rfl⟩ := List.mem_map.1 hf
    exact hun₂.all 0x5200000 ⟨rfl, hfirst.le, by decide, hout, hfree⟩ k ((List.mem_range.1 hk').trans (by decide))
  have hlen := (List.Nodup.subperm (by decide) hsub).length_le
  rw [List.length_map, List.length_range] at hlen
  exact ⟨s, s₁, s₂, _, F, hwin,
    ⟨⟨_, _, e, _, rfl, rfl, hearly⟩, hinit, Taken.start.step (.unmap (by norm_num) hl rfl (fun _ => hunused) hrun)⟩,
    hl, hun₂.inv, hun₂.isPage hk (by decide) htab', hlen, hun₂.above _ (hlt.le.trans (by decide))⟩

/-- One of the frames of that page is mapped at 1G. -/
theorem tables_in_owned_memory_image₁ : ∃ s s₁ s' A, WindowInPool image₁ s ∧ Runs image₁ machine₂ s s₁ s' A ∧
    lookup s₁.mem image₁.tab4 0x5200000 = some ⟨0x5200000, true, true⟩ ∧ (lookup s'.mem image₁.tab4 0x40000000).isSome = true ∧
    ∀ t, IsTable image₁ s' t → t ≠ image₁.tab4 → InSpace image₁ t ∨ InPool image₁ t ∨ t ∈ A := by
  obtain ⟨s, s₁, s₂, A, F, hwin, ⟨hearly, hinit, htaken⟩, hl, hinv, hpages, hlen, hnone⟩ := first_page_unmapped
  cases F with
  | nil => cases hlen
  | cons f F =>
    obtain ⟨hf, hF⟩ := List.forall_mem_cons.1 hpages
    obtain ⟨s₃, F', N, hmap, -, -, -, hm⟩ := mmPageMap_true hinv.pop.1 rfl (by decide) hnone hf hF
      (Nat.lt_of_succ_le (Nat.le_of_succ_le_succ hlen))
    have hruns : Runs image₁ machine₂ s s₁ s₃ _ :=
      ⟨hearly, hinit, (htaken.step (.alloc (mmFrameAlloc_cons hinv hf))).step (.map rfl (by decide) hnone hf hmap)⟩
    exact ⟨s, s₁, s₃, _, hwin, hruns, hl, by rw [hm.here _ rfl]; rfl,
      (tables_in_owned_memory image₁_placed₂ image₁_space hwin hruns).1⟩

/-- Elsewhere the second table of the window lies in memory of others. -/
theorem window_table_misplaced : ∃ s s₁, KernelPlaced image₀ machine₀ ∧ Runs image₀ machine₀ s s₁ s₁ ∅ ∧
    IsTable image₀ s₁ 0x208000 ∧ 0x208000 ≠ image₀.tab4 ∧
    ¬ (InSpace image₀ 0x208000 ∨ InPool image₀ 0x208000 ∨ 0x208000 ∈ (∅ : Set Nat)) := by
  obtain ⟨e, s, hearly, -⟩ := machine₀_early image₀_placed.toEarlyPlaced
  have hid := mmPageEarlyBootstrap_ok image₀_placed.toEarlyPlaced rfl rfl hearly
  obtain ⟨s₁, hinit, hun, -⟩ := hid.begin image₀_placed (image₀_apart s) rfl
  refine ⟨s, s₁, image₀_placed, ⟨⟨_, _, e, _, rfl, rfl, hearly⟩, hinit, .start⟩, hun.inv.tree.direct.isTable (i := 1) (by omega),
    by decide, ?_⟩
  rintro (h | h | h)
  · revert h
    unfold InSpace
    decide
  · revert h
    unfold InPool
    decide
  · cases h

end Cing.Page
