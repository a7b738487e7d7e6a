/-
drivers_pcie.c: the addresses of config space. The fields of an address do not overlap, nor does the base of a group as long as it
is aligned, so joining them with OR adds them up: every function has 4K of its own, which no access at an accepted offset leaves.
-/
import Cing.Drivers.Pcie
import Cing.Mem.Frame

namespace Cing.Pcie

open Mem

/-! ## The code -/

section Code

variable (cfg : Bytes.Mem)

/-- `_cfg_space_read_dword`. -/
def cfgSpaceReadDword (group bus dev func off : Nat) : PcieM Nat := do
  kernelAssert (off % 4 = 0) "off % 4 == 0"
  kernelAssert (off ≤ u64Sub configSpaceSize 4) "off <= (_CONFIG_SPACE_SIZE - 4)"
  let padd ← cfgSpacePa group bus dev func off
  return Bytes.load cfg padd 4

/-- `_cfg_space_write_dword`, with what the config spaces hold then. -/
def cfgSpaceWriteDword (group bus dev func off val : Nat) : PcieM Bytes.Mem := do
  kernelAssert (off % 4 = 0) "off % 4 == 0"
  kernelAssert (off ≤ 4096 - 4) "off <= (4096 - 4)"
  let padd ← cfgSpacePa group bus dev func off
  return Bytes.store cfg padd 4 val

end Code

/-! ## Addresses -/

variable {g : PcieGroup} {group bus dev func off : Nat} {cfg cfg' : Bytes.Mem} {s : PcieState}

/-- The 4K of a function. -/
def Own (g : PcieGroup) (bus dev func x : Nat) : Prop := cfgAddr g bus dev func 0 ≤ x ∧ x < cfgAddr g bus dev func 0 + 4096

theorem cfgAddr_window (hbus : bus < 256) (hdev : dev < 32) (hfunc : func < 8) (hoff : off < 4096) :
    g.cfgSpaceBasePa ≤ cfgAddr g bus dev func off ∧ cfgAddr g bus dev func off < g.cfgSpaceBasePa + dPcieGroupGetCfgLen := by
  have hlen : dPcieGroupGetCfgLen = 2 ^ 28 := rfl
  rw [hlen]
  unfold cfgAddr
  omega

theorem cfgAddr_inj {bus' dev' func' off' : Nat} (hdev : dev < 32) (hfunc : func < 8) (hoff : off < 4096) (hdev' : dev' < 32)
    (hfunc' : func' < 8) (hoff' : off' < 4096) (h : cfgAddr g bus' dev' func' off' = cfgAddr g bus dev func off) :
    bus' = bus ∧ dev' = dev ∧ func' = func ∧ off' = off := by
  unfold cfgAddr at h
  omega

/-! ## Accesses -/

/-- Bytes from an offset on that do not leave the 4K. -/
theorem load_own {n : Nat} (hfit : off + n ≤ 4096) (h : ∀ x, Own g bus dev func x → cfg x = cfg' x) :
    Bytes.load cfg (cfgAddr g bus dev func off) n = Bytes.load cfg' (cfgAddr g bus dev func off) n := by
  refine Bytes.load_congr fun x hlow hhigh => h x ?_
  unfold Own
  unfold cfgAddr at hlow hhigh ⊢
  omega

/-- Code behind a check is run only if the check passed. -/
theorem check_congr {c : Prop} [Decidable c] {expr : String} {α : Type} {x y : Unit → PcieM α} (h : c → x () s = y () s) :
    (kernelAssert c expr >>= x) s = (kernelAssert c expr >>= y) s := by
  by_cases hc : c
  · rw [Exec.bind_ok (kernelAssert_pos hc _ s), Exec.bind_ok (kernelAssert_pos hc _ s), h hc]
  · rw [Exec.bind_error (kernelAssert_neg hc _ s), Exec.bind_error (kernelAssert_neg hc _ s)]

theorem read_own {n : Nat} (h : Place g bus dev func) (hs : At group g s) (hoff : off < 4096) (hfit : off + n ≤ 4096)
    (hsame : ∀ x, Own g bus dev func x → cfg x = cfg' x) :
    (cfgSpacePa group bus dev func off >>= fun padd => pure (Bytes.load cfg padd n)) s =
      (cfgSpacePa group bus dev func off >>= fun padd => pure (Bytes.load cfg' padd n)) s := by
  rw [Exec.bind_ok (cfgSpacePa_run h hoff hs), Exec.bind_ok (cfgSpacePa_run h hoff hs), load_own hfit hsame]

theorem readByte_own (h : Place g bus dev func) (hs : At group g s) (hsame : ∀ x, Own g bus dev func x → cfg x = cfg' x) :
    cfgSpaceReadByte cfg group bus dev func off s = cfgSpaceReadByte cfg' group bus dev func off s :=
  check_congr fun hoff : off < 4096 => read_own h hs hoff (by omega) hsame

theorem readWord_own (h : Place g bus dev func) (hs : At group g s) (hsame : ∀ x, Own g bus dev func x → cfg x = cfg' x) :
    cfgSpaceReadWord cfg group bus dev func off s = cfgSpaceReadWord cfg' group bus dev func off s := by
  have hmax : u64Sub configSpaceSize 2 = 4094 := by decide
  exact check_congr fun _ => check_congr fun hoff => read_own h hs (by omega) (by omega) hsame

theorem readDword_own (h : Place g bus dev func) (hs : At group g s) (hsame : ∀ x, Own g bus dev func x → cfg x = cfg' x) :
    cfgSpaceReadDword cfg group bus dev func off s = cfgSpaceReadDword cfg' group bus dev func off s := by
  have hmax : u64Sub configSpaceSize 4 = 4092 := by decide
  exact check_congr fun _ => check_congr fun hoff => read_own h hs (by omega) (by omega) hsame

theorem cfgSpaceReadDword_run (h : Place g bus dev func) (halign : off % 4 = 0) (hoff : off ≤ 4092) (hs : At group g s) :
    cfgSpaceReadDword cfg group bus dev func off s = .ok (Bytes.load cfg (cfgAddr g bus dev func off) 4) s := by
  have hfit : off ≤ u64Sub configSpaceSize 4 := by
    rw [u64Sub_of_le (by decide) (by decide)]
    exact hoff
  unfold cfgSpaceReadDword
  rw [Exec.bind_ok (kernelAssert_pos halign _ s), Exec.bind_ok (kernelAssert_pos hfit _ s),
    Exec.bind_ok (cfgSpacePa_run h (by omega) hs), Exec.pure_run]

theorem cfgSpaceWriteDword_run (h : Place g bus dev func) (halign : off % 4 = 0) (hoff : off ≤ 4092)
    (hs : At group g s) (val : Nat) :
    cfgSpaceWriteDword cfg group bus dev func off val s = .ok (Bytes.store cfg (cfgAddr g bus dev func off) 4 val) s := by
  unfold cfgSpaceWriteDword
  rw [Exec.bind_ok (kernelAssert_pos halign _ s), Exec.bind_ok (kernelAssert_pos hoff _ s),
    Exec.bind_ok (cfgSpacePa_run h (by omega) hs), Exec.pure_run]

theorem writeDword_own {val : Nat} {s' : PcieState} (h : Place g bus dev func) (hs : At group g s)
    (hrun : cfgSpaceWriteDword cfg group bus dev func off val s = .ok cfg' s') : ∀ x, ¬ Own g bus dev func x → cfg' x = cfg x := by
  unfold cfgSpaceWriteDword at hrun
  obtain ⟨halign, hrun⟩ := kernelAssert_bind hrun
  obtain ⟨hoff, hrun⟩ := kernelAssert_bind hrun
  rw [Exec.bind_ok (cfgSpacePa_run h (by omega) hs)] at hrun
  cases hrun
  intro x hx
  refine Bytes.store_outside _ _ _ _ _ ?_
  unfold Own at hx
  unfold cfgAddr at hx ⊢
  omega

/-- What an access of a function touches: reads depend on nothing but its own 4K, writes change nothing else, and aligned accesses
that end in the 4K are made. -/
structure OwnAccess (group bus dev func : Nat) (g : PcieGroup) (s : PcieState) : Prop where
  reads : ∀ {off cfg cfg'}, (∀ x, Own g bus dev func x → cfg x = cfg' x) →
    cfgSpaceReadByte cfg group bus dev func off s = cfgSpaceReadByte cfg' group bus dev func off s ∧
      cfgSpaceReadWord cfg group bus dev func off s = cfgSpaceReadWord cfg' group bus dev func off s ∧
        cfgSpaceReadDword cfg group bus dev func off s = cfgSpaceReadDword cfg' group bus dev func off s
  writes : ∀ {off val cfg cfg' s'}, cfgSpaceWriteDword cfg group bus dev func off val s = .ok cfg' s' →
    ∀ x, ¬ Own g bus dev func x → cfg' x = cfg x
  word : ∀ {off}, off % 2 = 0 → off < 4096 → ∀ cfg,
    cfgSpaceReadWord cfg group bus dev func off s = .ok (Bytes.load cfg (cfgAddr g bus dev func off) 2) s
  dword : ∀ {off}, off % 4 = 0 → off < 4096 → ∀ cfg val,
    cfgSpaceReadDword cfg group bus dev func off s = .ok (Bytes.load cfg (cfgAddr g bus dev func off) 4) s ∧
      cfgSpaceWriteDword cfg group bus dev func off val s = .ok (Bytes.store cfg (cfgAddr g bus dev func off) 4 val) s

theorem Place.ownAccess (h : Place g bus dev func) (hs : At group g s) : OwnAccess group bus dev func g s where
  reads hsame := ⟨readByte_own h hs hsame, readWord_own h hs hsame, readDword_own h hs hsame⟩
  writes hrun := writeDword_own h hs hrun
  word halign hoff _ := cfgSpaceReadWord_run h halign (by omega) hs
  dword halign hoff _ val := ⟨cfgSpaceReadDword_run h halign (by omega) hs, cfgSpaceWriteDword_run h halign (by omega) hs val⟩

/-- The address of a byte of config space is the sum of its fields, in the window of the group, and of no other byte; so a function
is reached in its own 4K only. -/
theorem cfg_space_exact (hs : At group g s) (halign : g.cfgSpaceBasePa % 2 ^ 28 = 0) (hfit : g.cfgSpaceBasePa + 2 ^ 28 ≤ 2 ^ 64)
    (hbus : bus < 256) (hdev : dev < 32) (hfunc : func < 8) :
    OwnAccess group bus dev func g s ∧ ∀ off < 4096, ∃ pa < 2 ^ 64, cfgSpacePa group bus dev func off s = .ok pa s ∧
      pa = g.cfgSpaceBasePa + bus * 2 ^ 20 + dev * 2 ^ 15 + func * 2 ^ 12 + off ∧
      g.cfgSpaceBasePa ≤ pa ∧ pa < g.cfgSpaceBasePa + dPcieGroupGetCfgLen ∧
      ∀ bus' < 256, ∀ dev' < 32, ∀ func' < 8, ∀ off' < 4096, cfgSpacePa group bus' dev' func' off' s = .ok pa s →
        bus' = bus ∧ dev' = dev ∧ func' = func ∧ off' = off := by
  have hplace : ∀ {bus dev func}, bus < 256 → dev < 32 → func < 8 → Place g bus dev func := fun hb hd hf => ⟨halign, hb, hd, hf⟩
  refine ⟨(hplace hbus hdev hfunc).ownAccess hs, fun off hoff => ?_⟩
  obtain ⟨hlow, hhigh⟩ := cfgAddr_window (g := g) hbus hdev hfunc hoff
  have hlen : dPcieGroupGetCfgLen = 2 ^ 28 := rfl
  refine ⟨cfgAddr g bus dev func off, by omega, cfgSpacePa_run (hplace hbus hdev hfunc) hoff hs, rfl, hlow, hhigh, ?_⟩
  intro bus' hbus' dev' hdev' func' hfunc' off' hoff' hrun
  rw [cfgSpacePa_run (hplace hbus' hdev' hfunc') hoff' hs] at hrun
  injection hrun with hsame
  exact cfgAddr_inj hdev hfunc hoff hdev' hfunc' hoff' hsame

/-- A machine with its config space at 2816M. -/
def group₁ : PcieGroup := ⟨0xb0000000, 0, 0, 255⟩

def pcieState₁ : PcieState := { pcieState₀ with groups := fun _ => group₁ }

theorem cfg_space_exact_last : cfgSpacePa 0 255 31 7 4095 pcieState₁ = .ok 0xbfffffff pcieState₁ := by
  obtain ⟨-, hall⟩ := cfg_space_exact (rfl : At 0 group₁ pcieState₁) (by decide) (by decide) (by decide : 255 < 256)
    (by decide : 31 < 32) (by decide : 7 < 8)
  obtain ⟨pa, -, hrun, hpa, -⟩ := hall 4095 (by decide)
  exact hrun.trans (congrArg (fun a => EStateM.Result.ok a pcieState₁) hpa)

end Cing.Pcie
