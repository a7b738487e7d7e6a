/-
`vadd_get_padd`, the walk in software. It opens the window on a table and closes it again before it
looks at the entry, so the first entry it looks at is read through a closed window: no call returns.
Nothing in the kernel calls it, so nothing notices.
-/
import Cing.Mm.Page.Runs

namespace Cing.Page

/-! ## vadd_get_padd -/

section Code

variable (im : Image)

/-- The loop of `vadd_get_padd` from a level down: `present`, `lv` and `tab_pa` at its end. -/
def vaddGetPaddLoop (va : Nat) : Nat → Nat → PageM (Bool × Nat × Nat)
  | 0, tabPa => return (true, 0, tabPa)
  | lv + 1, tabPa => do
    let tabVa ← mmPageDirectAccessSetup im tabPa
    let enidx ← vaddTabIndex va (lv + 1)
    mmPageDirectAccessReset im
    -- the entry is looked at only now
    let en ← readVa im (tabVa + tabEntryLen * enidx)
    if tabEntryIsPresent en then do
      kernelAssert (tabEntryIsHuge en = false) "!_tab_entry_is_huge(en)"
      vaddGetPaddLoop va lv (tabEntryGetPadd en)
    else do
      kernelAssert (en = 0) "_tab_entry_is_zero(en)"
      return (false, lv + 1, tabPa)

/-- `vadd_get_padd`: the physical address, or none when it returns false. -/
def vaddGetPadd (va : Nat) : PageM (Option Nat) := do
  let r ← vaddGetPaddLoop im va 4 im.tab4
  if r.1 then do
    let off ← vaddPageOffset va r.2.1
    return some (u64 (r.2.2 + off))
  else
    return none

end Code

variable {im : Image} {s : PageState} {F : List Nat}

/-- What `vadd_get_padd` is for: it returns, and says where the hardware finds an address whose page is mapped with 4K. -/
def AgreesWithWalk (im : Image) (s : PageState) (va : Nat) : Prop :=
  ∃ s', vaddGetPadd im va s = .ok (translate s.mem im.tab4 va) s'

/-- While the window is closed, there is nothing behind its addresses. -/
theorem Inv.window_none (h : Inv im s F) (i : Fin 512) : translate s.mem im.tab4 (directVadd + tabEntryLen * i) = none := by
  have hi := i.isLt
  have hal : directVadd % 4096 = 0 := rfl
  have hsame : SamePage (directVadd + tabEntryLen * i) directVadd := by
    unfold SamePage pageSize4K tabEntryLen
    rw [show (directVadd + 8 * i) / 4096 = directVadd / 4096 by omega]
  have hnone : lookup s.mem im.tab4 (directVadd + tabEntryLen * i) = none :=
    Option.eq_none_iff_forall_ne_some.2 fun l hl => h.not_window hl hsame
  unfold translate
  rw [hnone]
  rfl

theorem readVa_fault {va : Nat} (h : translate s.mem im.tab4 va = none) : readVa im va s = .error (.pageFault va) s := by
  unfold readVa
  rw [Exec.bind_ok (Exec.get_run s), h]
  rfl

theorem vaddGetPadd_run (h : Inv im s F) (va : Nat) :
    vaddGetPadd im va s = .error (.pageFault (directVadd + tabEntryLen * tabIndex va 4)) s := by
  have hroot : IsPage im.tab4 := (h.tree.frame (p := []) rfl).1
  have hread := readVa_fault (h.window_none (tabIndex va 4))
  unfold vaddGetPadd
  rw [vaddGetPaddLoop, Exec.bind_error]
  rw [Exec.bind_ok (setup_run hroot h.window), Exec.bind_ok (vaddTabIndex_run (by omega) va _),
    Exec.bind_ok (closeWindow_run h.window hroot), Exec.bind_error hread]

/-- `vadd_get_padd` never returns: it reads an entry of `_tab_4` through the closed window. -/
theorem vadd_get_padd_faults (h : Reach im s) (va : Nat) : ¬ AgreesWithWalk im s va ∧
    vaddGetPadd im va s = .error (.pageFault (directVadd + tabEntryLen * tabIndex va 4)) s := by
  obtain ⟨F, hinv⟩ := h.inv
  have hrun := vaddGetPadd_run hinv va
  refine ⟨?_, hrun⟩
  rintro ⟨s', hs'⟩
  rw [hrun] at hs'
  cases hs'

theorem vadd_get_padd_faults_first : ∃ s, Reach image₀ s ∧ ¬ AgreesWithWalk image₀ s 0x1234 := by
  obtain ⟨s, -, hstart, -⟩ := exists_start
  exact ⟨s, .start hstart, (vadd_get_padd_faults (.start hstart) 0x1234).1⟩

/-- A page that was just mapped: the call does not give the frame back. -/
theorem vadd_get_padd_after_map : ∃ s s' pa, Reach image₀ s ∧ mmPageMap image₀ 0 pa s = .ok true s' ∧
    translate s'.mem image₀.tab4 0 = some pa ∧ ∃ e, vaddGetPadd image₀ 0 s' = .error (.pageFault e) s' := by
  obtain ⟨s, -, hstart, hinv, hnone, -⟩ := exists_start
  have hpage : ∀ f ∈ frames₀, IsPage f := fun f hf => (frames₀_spec f hf).1.1
  obtain ⟨s', F', N, hrun, h', -, -, hmapped⟩ :=
    mmPageMap_true hinv rfl (by decide) (hnone 0) (⟨rfl, by decide⟩ : IsPage 0x7000) hpage
    (by decide)
  refine ⟨s, s', 0x7000, .start hstart, hrun, ?_, _, vaddGetPadd_run h' 0⟩
  unfold translate
  rw [hmapped.here 0 rfl]
  rfl

end Cing.Page
