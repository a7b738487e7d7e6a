/-
drivers_pcie.c: which PCIe functions the kernel finds. `d_pcie_bootstrap` reads the groups of buses from the MCFG table and goes
over the buses, devices and functions of each; reads of a config space are a fixed function of the address. The last bus of a group
is left out, and nothing bounds the number of records in `_functions`.
-/
import Cing.Lib.Bytes
import Cing.Mm.Base

namespace Cing

/-- `d_pcie_group_t`, without its reserved bytes. -/
structure PcieGroup where
  cfgSpaceBasePa : Nat
  groupNo : Nat
  busStart : Nat
  busEnd : Nat

/-- `d_pcie_func_t`. A group is named by its index. -/
structure PcieFunc where
  group : Nat
  bus : Nat
  dev : Nat
  func : Nat
  vendorId : Nat
  deviceId : Nat
  headerType : Nat
  baseClass : Nat
  subClass : Nat
  pi : Nat
deriving DecidableEq

/-- `_groups`, `_gropp_cnt`, `_functions` and `_func_cnt`, and the indices of `_functions` that were written. -/
structure PcieState where
  groups : Nat → PcieGroup
  groppCnt : Nat
  functions : Nat → PcieFunc
  funcCnt : Nat
  writes : List Nat

abbrev PcieM := EStateM Stop PcieState

namespace Pcie

/-! ## The code -/

/-- `_GROUP_CAP`. -/
def groupCap : Nat := 8

/-- `_FUNCTIONS_CAP`. -/
def functionsCap : Nat := 128

def busMax : Nat := 256
def deviceMax : Nat := 32
def functionMax : Nat := 8
def configSpaceSize : Nat := 4096
def configSpaceAlign : Nat := 256 * 32 * 8 * 4 * 1024

/-- `sizeof(d_pcie_group_t)`. -/
def groupSize : Nat := 16

section Code

-- what the config spaces hold
variable (dbg : Bool) (cfg : Bytes.Mem)

/-- `_cfg_space_pa`. -/
def cfgSpacePa (group bus dev func off : Nat) : PcieM Nat := do
  let s ← get
  kernelAssert (mmAlignCheck (s.groups group).cfgSpaceBasePa configSpaceAlign)
    "mm_align_check(group->cfg_space_base_pa, _CONFIG_SPACE_ALIGN)"
  kernelAssert (bus < busMax) "bus < _BUS_MAX"
  kernelAssert (dev < deviceMax) "dev < _DEVICE_MAX"
  kernelAssert (func < functionMax) "fun < _FUNCTION_MAX"
  kernelAssert (off < 4096) "off < 4096"
  return ((s.groups group).cfgSpaceBasePa ||| bus <<< 20 ||| dev <<< 15 ||| func <<< 12) ||| off

/-- `_cfg_space_read_byte`. -/
def cfgSpaceReadByte (group bus dev func off : Nat) : PcieM Nat := do
  kernelAssert (off < configSpaceSize) "off < _CONFIG_SPACE_SIZE"
  let padd ← cfgSpacePa group bus dev func off
  return Bytes.load cfg padd 1

/-- `_cfg_space_read_word`. -/
def cfgSpaceReadWord (group bus dev func off : Nat) : PcieM Nat := do
  kernelAssert (off % 2 = 0) "off % 2 == 0"
  kernelAssert (off ≤ u64Sub configSpaceSize 2) "off <= (_CONFIG_SPACE_SIZE - 2)"
  let padd ← cfgSpacePa group bus dev func off
  return Bytes.load cfg padd 2

/-- `class_name` without its texts, which only the log reads. There is no text yet for a subclass of the base class 0. -/
def className (baseClass subClass : Nat) : PcieM Unit :=
  if baseClass = 0 ∧ subClass ≠ 0 then throw (.panic "TODO") else return ()

/-- `bootstrap_fun`, without the log. -/
def bootstrapFun (group bus dev func : Nat) : PcieM Unit := do
  let vendor ← cfgSpaceReadWord cfg group bus dev func 0
  if vendor ≠ 0xFFFF then do
    let s ← get
    set { s with funcCnt := u64 (s.funcCnt + 1), writes := s.funcCnt :: s.writes }
    let deviceId ← cfgSpaceReadWord cfg group bus dev func 2
    let headerType ← cfgSpaceReadByte cfg group bus dev func 0x0E
    let baseClass ← cfgSpaceReadByte cfg group bus dev func 11
    let subClass ← cfgSpaceReadByte cfg group bus dev func 10
    let pi ← cfgSpaceReadByte cfg group bus dev func 9
    let f : PcieFunc := ⟨group, bus, dev, func, vendor, deviceId, headerType, baseClass, subClass, pi⟩
    modify fun s' => { s' with functions := Function.update s'.functions s.funcCnt f }
    className baseClass subClass
  else return ()

/-- The first `n` rounds of the loop of `bootstrap_dev`. -/
def funLoop (group bus dev : Nat) : Nat → PcieM Unit
  | 0 => return ()
  | n + 1 => do
    funLoop group bus dev n
    bootstrapFun cfg group bus dev n

/-- `bootstrap_dev`. -/
def bootstrapDev (group bus dev : Nat) : PcieM Unit := do
  let vendor ← cfgSpaceReadWord cfg group bus dev 0 0
  if vendor ≠ 0xFFFF then do
    let headerType ← cfgSpaceReadByte cfg group bus dev 0 0x0E
    funLoop cfg group bus dev (if headerType.testBit 7 then 8 else 1)
  else return ()

/-- The first `n` rounds over the devices of a bus. -/
def devLoop (group bus : Nat) : Nat → PcieM Unit
  | 0 => return ()
  | n + 1 => do
    devLoop group bus n
    bootstrapDev cfg group bus n

/-- The first `n` rounds over the buses of a group. -/
def busLoop (group busStart : Nat) : Nat → PcieM Unit
  | 0 => return ()
  | n + 1 => do
    busLoop group busStart n
    devLoop cfg group (busStart + n) 32

/-- A group of the MCFG table. -/
def mcfgGroup (mcfg : Bytes.Mem) (i : Nat) : PcieGroup :=
  ⟨Bytes.load mcfg (groupSize * i) 8, Bytes.load mcfg (groupSize * i + 8) 2, Bytes.load mcfg (groupSize * i + 10) 1,
    Bytes.load mcfg (groupSize * i + 11) 1⟩

/-- The first `n` rounds of the loop of `d_pcie_bootstrap`. -/
def groupLoop (mcfg : Bytes.Mem) : Nat → PcieM Unit
  | 0 => return ()
  | n + 1 => do
    groupLoop mcfg n
    modify fun s => { s with groups := Function.update s.groups n (mcfgGroup mcfg n) }
    kernelAssert (mmAlignCheck (mcfgGroup mcfg n).cfgSpaceBasePa configSpaceAlign)
      "mm_align_check(_groups[i].cfg_space_base_pa, _CONFIG_SPACE_ALIGN)"
    busLoop cfg n (mcfgGroup mcfg n).busStart ((mcfgGroup mcfg n).busEnd - (mcfgGroup mcfg n).busStart)

/-- `d_pcie_bootstrap` of a table that is not NULL. -/
def dPcieBootstrap (mcfg : Bytes.Mem) (len : Nat) : PcieM Unit := do
  kernelAssert (len ≥ groupSize) "len >= sizeof(d_pcie_group_t)"
  kernelAssert (len % groupSize = 0) "(len % sizeof(d_pcie_group_t)) == 0"
  modify fun s => { s with groppCnt := len / groupSize }
  kernelAssert (len / groupSize ≤ groupCap) "_gropp_cnt <= _GROUP_CAP"
  modify fun s => { s with funcCnt := 0 }
  groupLoop cfg mcfg (len / groupSize)

/-- `d_pcie_get_func_cnt`. -/
def dPcieGetFuncCnt : PcieM Nat := do
  let s ← get
  kernelAssertD dbg (s.funcCnt < functionsCap) "_func_cnt < _FUNCTIONS_CAP"
  return s.funcCnt

end Code

/-! ## What is there -/

section Hardware

variable (cfg : Bytes.Mem) (g : PcieGroup)

/-- Where the config space of a function begins. -/
def cfgAddr (bus dev func off : Nat) : Nat := g.cfgSpaceBasePa + bus * 2 ^ 20 + dev * 2 ^ 15 + func * 2 ^ 12 + off

/-- The vendor of a function says that it is there. -/
def present (bus dev func : Nat) : Bool := Bytes.load cfg (cfgAddr g bus dev func 0) 2 ≠ 0xFFFF

/-- The record of a function of group `i`: its place, and bytes of its config space. -/
def record (i bus dev func : Nat) : PcieFunc :=
  ⟨i, bus, dev, func, Bytes.load cfg (cfgAddr g bus dev func 0) 2, Bytes.load cfg (cfgAddr g bus dev func 2) 2,
    Bytes.load cfg (cfgAddr g bus dev func 0x0E) 1, Bytes.load cfg (cfgAddr g bus dev func 11) 1,
    Bytes.load cfg (cfgAddr g bus dev func 10) 1, Bytes.load cfg (cfgAddr g bus dev func 9) 1⟩

/-- How many functions a device may have. -/
def funCnt (bus dev : Nat) : Nat := if (Bytes.load cfg (cfgAddr g bus dev 0 0x0E) 1).testBit 7 then 8 else 1

/-- The functions of a device, if its function 0 is there. -/
def devRecords (i bus dev : Nat) : List PcieFunc :=
  if present cfg g bus dev 0 then
    ((List.range (funCnt cfg g bus dev)).filter (present cfg g bus dev)).map (record cfg g i bus dev) else []

/-- The functions of a bus. -/
def busRecords (i bus : Nat) : List PcieFunc := (List.range 32).flatMap (devRecords cfg g i bus)

/-- The functions of the first `n` buses of a group. -/
def groupRecords (i n : Nat) : List PcieFunc := (List.range' g.busStart n).flatMap (busRecords cfg g i)

end Hardware

/-- The functions of the first `n` groups of a table, on the buses `bus_start` to `bus_end` inclusive. -/
def tableRecords (cfg mcfg : Bytes.Mem) (n : Nat) : List PcieFunc :=
  (List.range n).flatMap fun i =>
    groupRecords cfg (mcfgGroup mcfg i) i ((mcfgGroup mcfg i).busEnd + 1 - (mcfgGroup mcfg i).busStart)

/-- Those on the buses in front of `bus_end`. -/
def visited (cfg mcfg : Bytes.Mem) (n : Nat) : List PcieFunc :=
  (List.range n).flatMap fun i => groupRecords cfg (mcfgGroup mcfg i) i ((mcfgGroup mcfg i).busEnd - (mcfgGroup mcfg i).busStart)

/-- The tables that `d_pcie_bootstrap` accepts. -/
structure AcceptedMcfg (mcfg : Bytes.Mem) (len : Nat) : Prop where
  low : groupSize ≤ len
  whole : len % groupSize = 0
  cap : len / groupSize ≤ groupCap
  align : ∀ i < len / groupSize, (mcfgGroup mcfg i).cfgSpaceBasePa % configSpaceAlign = 0

/-! ## The records -/

/-- `_functions`, `_func_cnt` and the indices that were written. -/
structure FuncTable where
  functions : Nat → PcieFunc
  funcCnt : Nat
  writes : List Nat

def table (s : PcieState) : FuncTable := ⟨s.functions, s.funcCnt, s.writes⟩

/-- A function without a name for its class. -/
def Nameless (f : PcieFunc) : Prop := f.baseClass = 0 ∧ f.subClass ≠ 0

instance : DecidablePred Nameless := fun f => inferInstanceAs (Decidable (f.baseClass = 0 ∧ f.subClass ≠ 0))

/-- The table with one more record. -/
def FuncTable.store (t : FuncTable) (f : PcieFunc) : FuncTable :=
  ⟨Function.update t.functions t.funcCnt f, u64 (t.funcCnt + 1), t.funcCnt :: t.writes⟩

/-- Stores records, up to the first that has no name. -/
def storeAll : List PcieFunc → EStateM Stop FuncTable Unit
  | [] => return ()
  | f :: l => do
    modify fun t => t.store f
    if Nameless f then throw (.panic "TODO") else storeAll l

theorem storeAll_append (l l' : List PcieFunc) : storeAll (l ++ l') = storeAll l >>= fun _ => storeAll l' := by
  induction l with
  | nil => rfl
  | cons f l ih =>
    funext t
    rw [List.cons_append, storeAll, storeAll, bind_assoc, Exec.bind_ok (Exec.modify_run _ t), Exec.bind_ok (Exec.modify_run _ t)]
    by_cases hf : Nameless f
    · rw [if_pos hf, if_pos hf]
      rfl
    · rw [if_neg hf, if_neg hf, ih]

/-- How many records are stored: those in front of the first function without a name, and that one. -/
def stored : List PcieFunc → Nat
  | [] => 0
  | f :: l => if Nameless f then 1 else stored l + 1

theorem stored_named {l : List PcieFunc} (h : ∀ f ∈ l, ¬ Nameless f) : stored l = l.length := by
  induction l with
  | nil => rfl
  | cons f l ih =>
    rw [stored, if_neg (h f List.mem_cons_self), ih fun f' hf => h f' (List.mem_cons_of_mem f hf), List.length_cons]

/-- Records that all have a name are stored one behind the other. -/
theorem storeAll_ok : ∀ {l : List PcieFunc} {t : FuncTable}, (∀ f ∈ l, ¬ Nameless f) → t.funcCnt + l.length < 2 ^ 64 →
    ∃ t', storeAll l t = .ok () t' ∧ t'.funcCnt = t.funcCnt + l.length ∧
      (∀ k (h : k < l.length), t'.functions (t.funcCnt + k) = l[k]) ∧ ∀ k < t.funcCnt, t'.functions k = t.functions k := by
  intro l
  induction l with
  | nil => exact fun {t} _ _ => ⟨t, rfl, rfl, fun k h => absurd h (Nat.not_lt_zero k), fun _ _ => rfl⟩
  | cons f l ih =>
    intro t hname hlen
    rw [List.length_cons] at hlen
    have hcnt : (t.store f).funcCnt = t.funcCnt + 1 := u64_of_lt (by omega)
    obtain ⟨t', hrun, hcnt', hnew, hold⟩ := ih (t := t.store f) (fun f' hf => hname f' (List.mem_cons_of_mem f hf)) (by omega)
    rw [hcnt] at hcnt' hnew hold
    refine ⟨t', ?_, by rw [hcnt', List.length_cons]; omega, fun k hk => ?_, fun k hk => ?_⟩
    · rw [storeAll, Exec.bind_ok (Exec.modify_run _ t), if_neg (hname f List.mem_cons_self), hrun]
    · cases k with
      | zero =>
        rw [Nat.add_zero, hold _ (Nat.lt_succ_self _)]
        exact Function.update_self _ _ _
      | succ k =>
        have hk : k < l.length := Nat.lt_of_succ_lt_succ hk
        rw [show t.funcCnt + (k + 1) = t.funcCnt + 1 + k by omega, hnew k hk]
        rfl
    · rw [hold k (by omega)]
      exact Function.update_of_ne (by omega) _ _

/-- A function without a name stops the kernel. -/
theorem storeAll_stop : ∀ {l : List PcieFunc} (t : FuncTable), (∃ f ∈ l, Nameless f) →
    ∃ t', storeAll l t = .error (.panic "TODO") t' := by
  intro l
  induction l with
  | nil =>
    rintro t ⟨f, hf, -⟩
    exact absurd hf List.not_mem_nil
  | cons f l ih =>
    rintro t ⟨f', hf', hname⟩
    rw [storeAll, Exec.bind_ok (Exec.modify_run _ t)]
    by_cases hf : Nameless f
    · rw [if_pos hf]
      exact ⟨_, rfl⟩
    · rw [if_neg hf]
      rcases List.mem_cons.1 hf' with rfl | hmem
      · exact absurd hname hf
      · exact ih _ ⟨f', hmem, hname⟩

/-- The indices that are written, however it ends. -/
theorem storeAll_writes : ∀ {l : List PcieFunc} {t : FuncTable}, t.funcCnt + l.length < 2 ^ 64 → ∀ w,
    w ∈ (Exec.final (storeAll l t)).writes ↔ w ∈ t.writes ∨ t.funcCnt ≤ w ∧ w < t.funcCnt + stored l := by
  intro l
  induction l with
  | nil =>
    intro t _ w
    show w ∈ t.writes ↔ _
    rw [stored]
    constructor
    · exact .inl
    · rintro (h | h)
      · exact h
      · omega
  | cons f l ih =>
    intro t hlen w
    rw [List.length_cons] at hlen
    have hcnt : (t.store f).funcCnt = t.funcCnt + 1 := u64_of_lt (by omega)
    have hmem : w ∈ (t.store f).writes ↔ w = t.funcCnt ∨ w ∈ t.writes := List.mem_cons
    rw [storeAll, Exec.bind_ok (Exec.modify_run _ t), stored]
    by_cases hf : Nameless f
    · rw [if_pos hf, if_pos hf, Exec.throw_run, Exec.final_error, hmem]
      constructor
      · rintro (h | h)
        · exact .inr (by omega)
        · exact .inl h
      · rintro (h | h)
        · exact .inr h
        · exact .inl (by omega)
    · rw [if_neg hf, if_neg hf, ih (by omega), hmem, hcnt]
      constructor
      · rintro ((h | h) | h)
        · exact .inr (by omega)
        · exact .inl h
        · exact .inr (by omega)
      · rintro (h | h)
        · exact .inl (.inr h)
        · by_cases hw : w = t.funcCnt
          · exact .inl (.inl hw)
          · exact .inr (by omega)

/-! ## The loops -/

theorem or_eq_add {a b n : Nat} (ha : a % 2 ^ n = 0) (hb : b < 2 ^ n) : a ||| b = a + b := by
  obtain ⟨q, rfl⟩ := Nat.dvd_of_mod_eq_zero ha
  rw [Nat.two_pow_add_eq_or_of_lt hb]

/-- A place that `_cfg_space_pa` accepts. -/
structure Place (g : PcieGroup) (bus dev func : Nat) : Prop where
  align : g.cfgSpaceBasePa % configSpaceAlign = 0
  bus : bus < busMax
  dev : dev < deviceMax
  func : func < functionMax

/-- The group is the one at its index. -/
def At (group : Nat) (g : PcieGroup) (s : PcieState) : Prop := s.groups group = g

section Loops

variable {cfg mcfg : Bytes.Mem} {g : PcieGroup} {group bus dev func off n : Nat} {s : PcieState}

theorem cfgSpacePa_run (h : Place g bus dev func) (hoff : off < 4096) (hs : At group g s) :
    cfgSpacePa group bus dev func off s = .ok (cfgAddr g bus dev func off) s := by
  have halign := h.align
  have hbus := h.bus
  have hdev := h.dev
  have hfunc := h.func
  have hg : s.groups group = g := hs
  unfold busMax at hbus
  unfold deviceMax at hdev
  unfold functionMax at hfunc
  rw [show configSpaceAlign = 2 ^ 28 by norm_num [configSpaceAlign]] at halign
  have hpa : ((g.cfgSpaceBasePa ||| bus <<< 20 ||| dev <<< 15 ||| func <<< 12) ||| off) = cfgAddr g bus dev func off := by
    unfold cfgAddr
    rw [Nat.shiftLeft_eq, Nat.shiftLeft_eq, Nat.shiftLeft_eq, or_eq_add halign (by omega : bus * 2 ^ 20 < 2 ^ 28),
      or_eq_add (n := 20) (by omega) (by omega : dev * 2 ^ 15 < 2 ^ 20),
      or_eq_add (n := 15) (by omega) (by omega : func * 2 ^ 12 < 2 ^ 15), or_eq_add (n := 12) (by omega) (by omega)]
  unfold cfgSpacePa
  rw [Exec.bind_ok (Exec.get_run s), hg, Exec.bind_ok (kernelAssert_pos (mmAlignCheck_iff.2 h.align) _ s),
    Exec.bind_ok (kernelAssert_pos h.bus _ s), Exec.bind_ok (kernelAssert_pos h.dev _ s),
    Exec.bind_ok (kernelAssert_pos h.func _ s),
    Exec.bind_ok (kernelAssert_pos hoff _ s), Exec.pure_run, hpa]

theorem cfgSpaceReadByte_run (h : Place g bus dev func) (hoff : off < 4096) (hs : At group g s) :
    cfgSpaceReadByte cfg group bus dev func off s = .ok (Bytes.load cfg (cfgAddr g bus dev func off) 1) s := by
  unfold cfgSpaceReadByte
  rw [Exec.bind_ok (kernelAssert_pos (show off < configSpaceSize from hoff) _ s),
    Exec.bind_ok (cfgSpacePa_run h hoff hs), Exec.pure_run]

theorem cfgSpaceReadWord_run (h : Place g bus dev func) (heven : off % 2 = 0) (hoff : off ≤ 4094) (hs : At group g s) :
    cfgSpaceReadWord cfg group bus dev func off s = .ok (Bytes.load cfg (cfgAddr g bus dev func off) 2) s := by
  have hfit : off ≤ u64Sub configSpaceSize 2 := by
    rw [u64Sub_of_le (by decide) (by decide)]
    exact hoff
  unfold cfgSpaceReadWord
  rw [Exec.bind_ok (kernelAssert_pos heven _ s), Exec.bind_ok (kernelAssert_pos hfit _ s),
    Exec.bind_ok (cfgSpacePa_run h (by omega) hs), Exec.pure_run]

theorem bootstrapFun_shows (h : Place g bus dev func) :
    Exec.Shows table (At group g) (storeAll (([func].filter (present cfg g bus dev)).map (record cfg g group bus dev)))
      (bootstrapFun cfg group bus dev func) := by
  intro s hs
  unfold bootstrapFun
  rw [Exec.bind_ok (cfgSpaceReadWord_run h (by norm_num) (by norm_num) hs)]
  by_cases hp : present cfg g bus dev func = true
  · have hvendor : Bytes.load cfg (cfgAddr g bus dev func 0) 2 ≠ 0xFFFF := of_decide_eq_true hp
    generalize ht : { s with funcCnt := u64 (s.funcCnt + 1), writes := s.funcCnt :: s.writes } = t
    have hat : At group g t := by rw [← ht]; exact hs
    rw [if_pos hvendor, Exec.bind_ok (Exec.get_run s), ht, Exec.bind_ok (Exec.set_run s t),
      Exec.bind_ok (cfgSpaceReadWord_run h (by norm_num) (by norm_num) hat),
      Exec.bind_ok (cfgSpaceReadByte_run h (by norm_num) hat),
      Exec.bind_ok (cfgSpaceReadByte_run h (by norm_num) hat), Exec.bind_ok (cfgSpaceReadByte_run h (by norm_num) hat),
      Exec.bind_ok (cfgSpaceReadByte_run h (by norm_num) hat), Exec.bind_ok (Exec.modify_run _ t),
      List.filter_cons_of_pos hp, List.filter_nil, List.map_singleton, storeAll, Exec.bind_ok (Exec.modify_run _ _)]
    unfold className
    rw [← ht]
    by_cases hname : Bytes.load cfg (cfgAddr g bus dev func 11) 1 = 0 ∧ Bytes.load cfg (cfgAddr g bus dev func 10) 1 ≠ 0
    · rw [if_pos hname, if_pos (show Nameless (record cfg g group bus dev func) from hname)]
      exact ⟨rfl, hs⟩
    · rw [if_neg hname, if_neg (show ¬ Nameless (record cfg g group bus dev func) from hname)]
      exact ⟨rfl, hs⟩
  · have hvendor : ¬ Bytes.load cfg (cfgAddr g bus dev func 0) 2 ≠ 0xFFFF := fun hc => hp (decide_eq_true hc)
    rw [if_neg hvendor, List.filter_cons_of_neg hp]
    exact ⟨rfl, hs⟩

/-- Two parts of a loop, one behind the other. -/
theorem shows_append {x y : PcieM Unit} {l l' : List PcieFunc} (hx : Exec.Shows table (At group g) (storeAll l) x)
    (hy : Exec.Shows table (At group g) (storeAll l') y) :
    Exec.Shows table (At group g) (storeAll (l ++ l')) (x >>= fun _ => y) := by
  rw [storeAll_append]
  exact hx.bind fun _ => hy

theorem funLoop_shows (h : ∀ func < n, Place g bus dev func) :
    Exec.Shows table (At group g) (storeAll (((List.range n).filter (present cfg g bus dev)).map (record cfg g group bus dev)))
      (funLoop cfg group bus dev n) := by
  induction n with
  | zero => exact .pure ()
  | succ n ih =>
    rw [List.range_succ, List.filter_append, List.map_append]
    exact shows_append (ih fun func hf => h func (hf.trans (Nat.lt_succ_self n))) (bootstrapFun_shows (h n (Nat.lt_succ_self n)))

theorem bootstrapDev_shows (h : ∀ func < 8, Place g bus dev func) :
    Exec.Shows table (At group g) (storeAll (devRecords cfg g group bus dev)) (bootstrapDev cfg group bus dev) := by
  intro s hs
  have h0 := h 0 (by norm_num)
  have hcnt : funCnt cfg g bus dev ≤ 8 := by
    unfold funCnt
    split <;> norm_num
  unfold bootstrapDev devRecords
  rw [Exec.bind_ok (cfgSpaceReadWord_run h0 (by norm_num) (by norm_num) hs)]
  by_cases hp : present cfg g bus dev 0 = true
  · have hvendor : Bytes.load cfg (cfgAddr g bus dev 0 0) 2 ≠ 0xFFFF := of_decide_eq_true hp
    rw [if_pos hvendor, Exec.bind_ok (cfgSpaceReadByte_run h0 (by norm_num) hs), if_pos hp]
    exact funLoop_shows (fun func hf => h func (hf.trans_le hcnt)) s hs
  · have hvendor : ¬ Bytes.load cfg (cfgAddr g bus dev 0 0) 2 ≠ 0xFFFF := fun hc => hp (decide_eq_true hc)
    rw [if_neg hvendor, if_neg hp]
    exact ⟨rfl, hs⟩

theorem devLoop_shows (h : ∀ dev < n, ∀ func < 8, Place g bus dev func) :
    Exec.Shows table (At group g) (storeAll ((List.range n).flatMap (devRecords cfg g group bus))) (devLoop cfg group bus n) := by
  induction n with
  | zero => exact .pure ()
  | succ n ih =>
    rw [List.range_succ, List.flatMap_append, List.flatMap_singleton]
    exact shows_append (ih fun dev hd => h dev (hd.trans (Nat.lt_succ_self n))) (bootstrapDev_shows (h n (Nat.lt_succ_self n)))

theorem busLoop_shows (halign : g.cfgSpaceBasePa % configSpaceAlign = 0) (hn : g.busStart + n ≤ busMax) :
    Exec.Shows table (At group g) (storeAll (groupRecords cfg g group n)) (busLoop cfg group g.busStart n) := by
  unfold groupRecords
  induction n with
  | zero => exact .pure ()
  | succ n ih =>
    rw [List.range'_concat, List.flatMap_append, List.flatMap_singleton, Nat.one_mul]
    exact shows_append (ih (by omega)) (devLoop_shows fun dev hd func hf => ⟨halign, by omega, hd, hf⟩)

theorem mcfgGroup_bus (mcfg : Bytes.Mem) (i : Nat) : (mcfgGroup mcfg i).busStart < busMax ∧ (mcfgGroup mcfg i).busEnd < busMax :=
  ⟨Bytes.load_lt mcfg _ 1, Bytes.load_lt mcfg _ 1⟩

/-- The groups, one behind the other; what is in `_groups` does not show. -/
theorem groupLoop_shows (halign : ∀ i < n, (mcfgGroup mcfg i).cfgSpaceBasePa % configSpaceAlign = 0) :
    Exec.Shows table (fun _ => True) (storeAll (visited cfg mcfg n)) (groupLoop cfg mcfg n) := by
  unfold visited
  induction n with
  | zero => exact .pure ()
  | succ n ih =>
    rw [List.range_succ, List.flatMap_append, List.flatMap_singleton, storeAll_append]
    refine (ih fun i hi => halign i (hi.trans (Nat.lt_succ_self n))).bind fun _ s _ => ?_
    have ha := halign n (Nat.lt_succ_self n)
    have hbus := mcfgGroup_bus mcfg n
    rw [Exec.bind_ok (Exec.modify_run _ s), Exec.bind_ok (kernelAssert_pos (mmAlignCheck_iff.2 ha) _ _)]
    have hat : At n (mcfgGroup mcfg n) { s with groups := Function.update s.groups n (mcfgGroup mcfg n) } :=
      Function.update_self n _ _
    exact ⟨(busLoop_shows ha (by omega) _ hat).1, trivial⟩

/-- What is on the way to a table that is accepted: nothing shows but the records of the buses in front of the last. -/
theorem dPcieBootstrap_shows (cfg : Bytes.Mem) {len : Nat} (ha : AcceptedMcfg mcfg len) (s : PcieState) :
    Exec.shown table (dPcieBootstrap cfg mcfg len s) =
      storeAll (visited cfg mcfg (len / groupSize)) ⟨s.functions, 0, s.writes⟩ := by
  unfold dPcieBootstrap
  rw [Exec.bind_ok (kernelAssert_pos ha.low _ s), Exec.bind_ok (kernelAssert_pos ha.whole _ s), Exec.bind_ok (Exec.modify_run _ s),
    Exec.bind_ok (kernelAssert_pos ha.cap _ _), Exec.bind_ok (Exec.modify_run _ _)]
  exact (groupLoop_shows ha.align _ trivial).1

/-! ## How many there are -/

theorem flatMap_length_le {α β : Type} {f : α → List β} {l : List α} {c : Nat} (h : ∀ a ∈ l, (f a).length ≤ c) :
    (l.flatMap f).length ≤ l.length * c := by
  rw [List.length_flatMap]
  have hle := List.sum_le_card_nsmul (l.map fun a => (f a).length) c (by
    intro x hx
    obtain ⟨a, ha, rfl⟩ := List.mem_map.1 hx
    exact h a ha)
  rwa [List.length_map, smul_eq_mul] at hle

theorem devRecords_length_le (cfg : Bytes.Mem) (g : PcieGroup) (i bus dev : Nat) : (devRecords cfg g i bus dev).length ≤ 8 := by
  unfold devRecords
  split
  · rw [List.length_map]
    refine (List.length_filter_le _ _).trans ?_
    rw [List.length_range]
    unfold funCnt
    split <;> norm_num
  · exact Nat.zero_le _

theorem visited_length_lt {len : Nat} (ha : AcceptedMcfg mcfg len) (cfg : Bytes.Mem) :
    (visited cfg mcfg (len / groupSize)).length < 2 ^ 64 := by
  have hbus : ∀ i bus, (busRecords cfg (mcfgGroup mcfg i) i bus).length ≤ 32 * 8 := by
    intro i bus
    have hle := flatMap_length_le (l := List.range 32) fun dev _ => devRecords_length_le cfg (mcfgGroup mcfg i) i bus dev
    rwa [List.length_range] at hle
  have hgroup : ∀ i ∈ List.range (len / groupSize), (groupRecords cfg (mcfgGroup mcfg i) i
      ((mcfgGroup mcfg i).busEnd - (mcfgGroup mcfg i).busStart)).length ≤ 256 * (32 * 8) := by
    intro i _
    have hend := (mcfgGroup_bus mcfg i).2
    have hle := flatMap_length_le
      (l := List.range' (mcfgGroup mcfg i).busStart ((mcfgGroup mcfg i).busEnd - (mcfgGroup mcfg i).busStart))
      fun bus _ => hbus i bus
    rw [List.length_range'] at hle
    unfold busMax at hend
    exact hle.trans (Nat.mul_le_mul_right _ (by omega))
  have hle := flatMap_length_le hgroup
  have hcap := ha.cap
  rw [List.length_range] at hle
  unfold groupCap at hcap
  unfold visited
  omega

/-- A device is found if and only if its function 0 is there. -/
theorem devRecords_eq_nil_iff (i : Nat) : devRecords cfg g i bus dev = [] ↔ present cfg g bus dev 0 = false := by
  unfold devRecords
  constructor
  · intro h
    by_contra hp
    rw [Bool.not_eq_false] at hp
    rw [if_pos hp, List.map_eq_nil_iff, List.filter_eq_nil_iff] at h
    refine h 0 (List.mem_range.2 ?_) hp
    unfold funCnt
    split <;> norm_num
  · intro h
    rw [h, if_neg Bool.false_ne_true]

theorem busRecords_eq_nil_iff (i : Nat) : busRecords cfg g i bus = [] ↔ ∀ dev < 32, present cfg g bus dev 0 = false := by
  unfold busRecords
  rw [List.flatMap_eq_nil_iff]
  constructor
  · intro h dev hdev
    exact (devRecords_eq_nil_iff i).1 (h dev (List.mem_range.2 hdev))
  · intro h dev hdev
    exact (devRecords_eq_nil_iff i).2 (h dev (List.mem_range.1 hdev))

/-- What the last bus of a group adds. -/
theorem groupRecords_last (i : Nat) : groupRecords cfg g i (g.busEnd + 1 - g.busStart) =
    groupRecords cfg g i (g.busEnd - g.busStart) ++ if g.busStart ≤ g.busEnd then busRecords cfg g i g.busEnd else [] := by
  unfold groupRecords
  split
  · rename_i hle
    rw [Nat.succ_sub hle, List.range'_concat, List.flatMap_append, List.flatMap_singleton, Nat.one_mul, Nat.add_sub_cancel' hle]
  · rename_i hgt
    rw [show g.busEnd + 1 - g.busStart = 0 by omega, show g.busEnd - g.busStart = 0 by omega, List.append_nil]

/-- Nothing is on the last bus of a group. -/
def LastBusEmpty (cfg mcfg : Bytes.Mem) (n : Nat) : Prop :=
  ∀ i < n, (mcfgGroup mcfg i).busStart ≤ (mcfgGroup mcfg i).busEnd →
    ∀ dev < 32, present cfg (mcfgGroup mcfg i) (mcfgGroup mcfg i).busEnd dev 0 = false

/-- All functions are on the visited buses if and only if there are as many of them. -/
theorem tableRecords_visited (cfg mcfg : Bytes.Mem) (n : Nat) : (visited cfg mcfg n).length ≤ (tableRecords cfg mcfg n).length ∧
    ((tableRecords cfg mcfg n).length = (visited cfg mcfg n).length → LastBusEmpty cfg mcfg n) ∧
    (LastBusEmpty cfg mcfg n → tableRecords cfg mcfg n = visited cfg mcfg n) := by
  unfold tableRecords visited LastBusEmpty
  induction n with
  | zero => exact ⟨le_rfl, fun _ i hi => absurd hi (Nat.not_lt_zero i), fun _ => rfl⟩
  | succ n ih =>
    obtain ⟨hle, hempty, hsame⟩ := ih
    rw [List.range_succ, List.flatMap_append, List.flatMap_append, List.flatMap_singleton, List.flatMap_singleton,
      groupRecords_last]
    refine ⟨?_, fun heq i hi hbus => ?_, fun h => ?_⟩
    · simp only [List.length_append]
      omega
    · simp only [List.length_append] at heq
      rcases Nat.lt_succ_iff_lt_or_eq.1 hi with hi | rfl
      · exact hempty (by omega) i hi hbus
      · rw [if_pos hbus] at heq
        exact (busRecords_eq_nil_iff i).1 (List.eq_nil_of_length_eq_zero (by omega))
    · rw [hsame fun i hi => h i (hi.trans (Nat.lt_succ_self n))]
      split
      · rename_i hbus
        rw [(busRecords_eq_nil_iff n).2 (h n (Nat.lt_succ_self n) hbus), List.append_nil]
      · rw [List.append_nil]

end Loops

/-! ## What is found -/

/-- The records are those of all functions, in order. -/
def Found (cfg mcfg : Bytes.Mem) (len : Nat) (s : PcieState) : Prop :=
  s.funcCnt = (tableRecords cfg mcfg (len / groupSize)).length ∧
    ∀ k (h : k < (tableRecords cfg mcfg (len / groupSize)).length), s.functions k = (tableRecords cfg mcfg (len / groupSize))[k]

variable {cfg mcfg : Bytes.Mem} {len : Nat}

/-- Discovery returns if and only if every function that it finds has a name for its class. -/
theorem dPcieBootstrap_ok (cfg : Bytes.Mem) (ha : AcceptedMcfg mcfg len) (s : PcieState) :
    (∀ f ∈ visited cfg mcfg (len / groupSize), ¬ Nameless f) → ∃ s', dPcieBootstrap cfg mcfg len s = .ok () s' ∧
      s'.funcCnt = (visited cfg mcfg (len / groupSize)).length ∧
      ∀ k (h : k < (visited cfg mcfg (len / groupSize)).length), s'.functions k = (visited cfg mcfg (len / groupSize))[k] := by
  intro hname
  have hshow := dPcieBootstrap_shows cfg ha s
  have hlen := visited_length_lt ha cfg
  obtain ⟨t, hrun, hcnt, hnew, -⟩ := storeAll_ok (t := ⟨s.functions, 0, s.writes⟩) hname (by rw [Nat.zero_add]; exact hlen)
  rw [hrun] at hshow
  cases hboot : dPcieBootstrap cfg mcfg len s with
  | ok u s' =>
    rw [hboot] at hshow
    injection hshow with _ ht
    rw [← ht] at hcnt hnew
    simp only [Nat.zero_add] at hcnt hnew
    exact ⟨s', rfl, hcnt, hnew⟩
  | error e s' =>
    rw [hboot] at hshow
    cases hshow

theorem dPcieBootstrap_stop (ha : AcceptedMcfg mcfg len) (s s' : PcieState)
    (h : ∃ f ∈ visited cfg mcfg (len / groupSize), Nameless f) :
    dPcieBootstrap cfg mcfg len s ≠ .ok () s' := by
  intro hboot
  have hshow := dPcieBootstrap_shows cfg ha s
  obtain ⟨t, hrun⟩ := storeAll_stop ⟨s.functions, 0, s.writes⟩ h
  rw [hrun, hboot] at hshow
  cases hshow

/-- Discovery returns with the records of all functions if and only if no device is on the last bus of a group, and every function
on the buses in front of it has a name for its class. -/
theorem pcie_found_iff (ha : AcceptedMcfg mcfg len) (s : PcieState) :
    (∃ s', dPcieBootstrap cfg mcfg len s = .ok () s' ∧ Found cfg mcfg len s') ↔
      LastBusEmpty cfg mcfg (len / groupSize) ∧ ∀ f ∈ visited cfg mcfg (len / groupSize), ¬ Nameless f := by
  obtain ⟨-, hempty, hsame⟩ := tableRecords_visited cfg mcfg (len / groupSize)
  constructor
  · rintro ⟨s', hrun, hcnt, -⟩
    have hname : ∀ f ∈ visited cfg mcfg (len / groupSize), ¬ Nameless f := fun f hf hf' =>
      dPcieBootstrap_stop ha s s' ⟨f, hf, hf'⟩ hrun
    obtain ⟨s₁, hrun₁, hcnt₁, -⟩ := dPcieBootstrap_ok cfg ha s hname
    rw [hrun] at hrun₁
    injection hrun₁ with _ hs
    rw [← hs] at hcnt₁
    exact ⟨hempty (hcnt.symm.trans hcnt₁), hname⟩
  · rintro ⟨hlast, hname⟩
    obtain ⟨s', hrun, hfound⟩ := dPcieBootstrap_ok cfg ha s hname
    unfold Found
    rw [hsame hlast]
    exact ⟨s', hrun, hfound⟩

/-! ## The table -/

/-- Nothing is written behind `_functions`, and the count of a run that returned can be asked for. -/
def TableSafe (dbg : Bool) (cfg mcfg : Bytes.Mem) (len : Nat) (s : PcieState) : Prop :=
  (∀ w ∈ (Exec.final (dPcieBootstrap cfg mcfg len s)).writes, w < functionsCap) ∧
    ∀ s', dPcieBootstrap cfg mcfg len s = .ok () s' → dPcieGetFuncCnt dbg s' = .ok s'.funcCnt s'

theorem dPcieBootstrap_writes (ha : AcceptedMcfg mcfg len) {s : PcieState} (hs : s.writes = []) (w : Nat) :
    w ∈ (Exec.final (dPcieBootstrap cfg mcfg len s)).writes ↔ w < stored (visited cfg mcfg (len / groupSize)) := by
  have hlen := visited_length_lt ha cfg
  have hshow := dPcieBootstrap_shows cfg ha s
  have hwrites := storeAll_writes (l := visited cfg mcfg (len / groupSize)) (t := ⟨s.functions, 0, s.writes⟩)
    (by rw [Nat.zero_add]; exact hlen) w
  have hfinal : (Exec.final (Exec.shown table (dPcieBootstrap cfg mcfg len s))).writes =
      (Exec.final (dPcieBootstrap cfg mcfg len s)).writes := by
    cases dPcieBootstrap cfg mcfg len s <;> rfl
  rw [← hshow, hfinal, hs, Nat.zero_add] at hwrites
  rw [hwrites]
  constructor
  · rintro (h | h)
    · exact absurd h List.not_mem_nil
    · exact h.2
  · intro h
    exact .inr ⟨Nat.zero_le _, h⟩

/-- The table is safe if and only if at most 128 records are stored, and in the debug build fewer, unless a function without a name
stops the kernel at the last. -/
theorem pcie_table_safe_iff (dbg : Bool) (ha : AcceptedMcfg mcfg len) {s : PcieState} (hs : s.writes = []) :
    TableSafe dbg cfg mcfg len s ↔ stored (visited cfg mcfg (len / groupSize)) ≤ functionsCap ∧
      (dbg = true → stored (visited cfg mcfg (len / groupSize)) = functionsCap →
        ∃ f ∈ visited cfg mcfg (len / groupSize), Nameless f) := by
  unfold TableSafe
  simp only [dPcieBootstrap_writes ha hs]
  constructor
  · rintro ⟨hw, hget⟩
    refine ⟨?_, fun hdbg hfull => ?_⟩
    · by_contra hc
      exact lt_irrefl _ (hw functionsCap (not_le.1 hc))
    · by_contra hno
      have hname : ∀ f ∈ visited cfg mcfg (len / groupSize), ¬ Nameless f := fun f hf hf' => hno ⟨f, hf, hf'⟩
      obtain ⟨s', hrun, hcnt, -⟩ := dPcieBootstrap_ok cfg ha s hname
      rw [← stored_named hname, hfull] at hcnt
      have hget := hget s' hrun
      unfold dPcieGetFuncCnt at hget
      rw [hdbg, Exec.bind_ok (Exec.get_run s'), Exec.bind_error (kernelAssertD_neg (by omega) _ s')] at hget
      cases hget
  · rintro ⟨hle, hfull⟩
    refine ⟨fun w hw => hw.trans_le hle, fun s' hrun => ?_⟩
    have hname : ∀ f ∈ visited cfg mcfg (len / groupSize), ¬ Nameless f := fun f hf hf' =>
      dPcieBootstrap_stop ha s s' ⟨f, hf, hf'⟩ hrun
    obtain ⟨s₁, hrun₁, hcnt, -⟩ := dPcieBootstrap_ok cfg ha s hname
    rw [hrun] at hrun₁
    injection hrun₁ with _ hs₁
    rw [← hs₁, ← stored_named hname] at hcnt
    have hlt : dbg = true → s'.funcCnt < functionsCap := by
      intro hdbg
      rw [hcnt]
      refine lt_of_le_of_ne hle fun he => ?_
      obtain ⟨f, hf, hf'⟩ := hfull hdbg he
      exact hname f hf hf'
    unfold dPcieGetFuncCnt
    rw [Exec.bind_ok (Exec.get_run s'), Exec.bind_ok (kernelAssertD_of hlt _ s'), Exec.pure_run]

/-! ## Why it stops -/

/-- Whether a group stops the kernel: its config space is not aligned, or one of its functions has no name. -/
def groupStops (cfg mcfg : Bytes.Mem) (i : Nat) : Option Stop :=
  if (mcfgGroup mcfg i).cfgSpaceBasePa % configSpaceAlign ≠ 0 then
    some (.assertFail "mm_align_check(_groups[i].cfg_space_base_pa, _CONFIG_SPACE_ALIGN)")
  else if ∃ f ∈ groupRecords cfg (mcfgGroup mcfg i) i ((mcfgGroup mcfg i).busEnd - (mcfgGroup mcfg i).busStart), Nameless f then
    some (.panic "TODO")
  else none

/-- Whether one of the first `n` groups does. -/
def groupsStop (cfg mcfg : Bytes.Mem) : Nat → Option Stop
  | 0 => none
  | n + 1 => (groupsStop cfg mcfg n).or (groupStops cfg mcfg n)

/-- What becomes of a call of `d_pcie_bootstrap`. -/
def pcieStops (cfg mcfg : Bytes.Mem) (len : Nat) : Option Stop :=
  if len < groupSize then some (.assertFail "len >= sizeof(d_pcie_group_t)")
  else if len % groupSize ≠ 0 then some (.assertFail "(len % sizeof(d_pcie_group_t)) == 0")
  else if groupCap < len / groupSize then some (.assertFail "_gropp_cnt <= _GROUP_CAP")
  else groupsStop cfg mcfg (len / groupSize)

theorem storeAll_stops (l : List PcieFunc) (t : FuncTable) :
    Exec.stops (storeAll l t) = if ∃ f ∈ l, Nameless f then some (.panic "TODO") else none := by
  split
  · rename_i h
    obtain ⟨t', hrun⟩ := storeAll_stop t h
    rw [hrun]
    rfl
  · rename_i h
    induction l generalizing t with
    | nil => rfl
    | cons f l ih =>
      have hf : ¬ Nameless f := fun hf => h ⟨f, List.mem_cons_self, hf⟩
      rw [storeAll, Exec.bind_ok (Exec.modify_run _ t), if_neg hf]
      exact ih _ fun hex => h (hex.imp fun _ hg => ⟨List.mem_cons_of_mem f hg.1, hg.2⟩)

theorem groupLoop_stops (cfg mcfg : Bytes.Mem) (n : Nat) (s : PcieState) :
    Exec.stops (groupLoop cfg mcfg n s) = groupsStop cfg mcfg n := by
  induction n with
  | zero => rfl
  | succ n ih =>
    rw [groupLoop, groupsStop, ← ih]
    cases hloop : groupLoop cfg mcfg n s with
    | error e s₁ =>
      rw [Exec.bind_error hloop]
      rfl
    | ok u s₁ =>
      rw [Exec.bind_ok hloop, Exec.bind_ok (Exec.modify_run _ s₁), Exec.stops_ok, Option.none_or]
      unfold groupStops
      by_cases ha : (mcfgGroup mcfg n).cfgSpaceBasePa % configSpaceAlign = 0
      · have hbus := mcfgGroup_bus mcfg n
        have hat : At n (mcfgGroup mcfg n) { s₁ with groups := Function.update s₁.groups n (mcfgGroup mcfg n) } :=
          Function.update_self n _ _
        rw [Exec.bind_ok (kernelAssert_pos (mmAlignCheck_iff.2 ha) _ _), if_neg (fun hc => hc ha), ← storeAll_stops _ (table _),
          ← (busLoop_shows ha (by omega) _ hat).1, Exec.stops_shown]
      · rw [Exec.bind_error (kernelAssert_neg (fun hc => ha (mmAlignCheck_iff.1 hc)) _ _), if_pos ha]
        rfl

/-- What becomes of a call does not depend on the state. -/
theorem dPcieBootstrap_stops (cfg mcfg : Bytes.Mem) (len : Nat) (s : PcieState) :
    Exec.stops (dPcieBootstrap cfg mcfg len s) = pcieStops cfg mcfg len := by
  unfold dPcieBootstrap pcieStops
  by_cases h1 : len < groupSize
  · rw [if_pos h1, Exec.bind_error (kernelAssert_neg (by omega) _ s)]
    rfl
  rw [if_neg h1, Exec.bind_ok (kernelAssert_pos (by omega) _ s)]
  by_cases h2 : len % groupSize = 0
  · rw [if_neg (fun hc => hc h2), Exec.bind_ok (kernelAssert_pos h2 _ s), Exec.bind_ok (Exec.modify_run _ s)]
    by_cases h3 : len / groupSize ≤ groupCap
    · rw [if_neg (by omega), Exec.bind_ok (kernelAssert_pos h3 _ _), Exec.bind_ok (Exec.modify_run _ _)]
      exact groupLoop_stops cfg mcfg _ _
    · rw [if_pos (by omega), Exec.bind_error (kernelAssert_neg h3 _ _)]
      rfl
  · rw [if_pos h2, Exec.bind_error (kernelAssert_neg h2 _ s)]
    rfl

/-! ## Machines -/

/-- A table with one group at 2816M, from bus 0 to bus `busEnd`. -/
def mcfg₀ (busEnd : UInt8) : Bytes.Mem := fun x => if x = 3 then 0xb0 else if x = 11 then busEnd else 0

/-- The group has one function, the first. -/
def cfg₀ : Bytes.Mem := fun x => if x = 0xb0000000 then 0x86 else if x = 0xb0000001 then 0x80 else 0xff

def pcieState₀ : PcieState := ⟨fun _ => ⟨0, 0, 0, 0⟩, 0, fun _ => ⟨0, 0, 0, 0, 0, 0, 0, 0, 0, 0⟩, 0, []⟩

theorem mcfg₀_accepted (busEnd : UInt8) : AcceptedMcfg (mcfg₀ busEnd) 16 := by
  refine ⟨le_rfl, rfl, by decide, fun i hi => ?_⟩
  obtain rfl : i = 0 := Nat.lt_one_iff.1 hi
  have hbase : (mcfgGroup (mcfg₀ busEnd) 0).cfgSpaceBasePa = 0xb0000000 := by simp [mcfgGroup, groupSize, Bytes.load, mcfg₀]
  rw [hbase]
  rfl

theorem pcie_found_iff_one : ∃ s', dPcieBootstrap cfg₀ (mcfg₀ 1) 16 pcieState₀ = .ok () s' ∧ Found cfg₀ (mcfg₀ 1) 16 s' := by
  refine (pcie_found_iff (mcfg₀_accepted 1) pcieState₀).2 ⟨fun i hi _ => ?_, by decide +kernel⟩
  obtain rfl : i = 0 := Nat.lt_one_iff.1 hi
  decide +kernel

/-- The function is on the only bus, which is the last. -/
theorem pcie_last_bus_lost : ¬ ∃ s', dPcieBootstrap cfg₀ (mcfg₀ 0) 16 pcieState₀ = .ok () s' ∧ Found cfg₀ (mcfg₀ 0) 16 s' := by
  rintro ⟨s', hrun, hcnt, -⟩
  obtain ⟨s₁, hrun₁, hcnt₁, -⟩ := dPcieBootstrap_ok cfg₀ (mcfg₀_accepted 0) pcieState₀ (by decide +kernel)
  rw [hrun] at hrun₁
  injection hrun₁ with _ hs
  rw [← hs, hcnt] at hcnt₁
  exact absurd hcnt₁ (by decide +kernel)

theorem pcie_table_safe_iff_one : TableSafe true cfg₀ (mcfg₀ 1) 16 pcieState₀ :=
  (pcie_table_safe_iff true (mcfg₀_accepted 1) rfl).2 ⟨by decide +kernel, fun _ h => absurd h (by decide +kernel)⟩

/-- A bus on which every function is there. -/
def fullCfg : Bytes.Mem := fun _ => 0x80

theorem pcie_table_overflows : ¬ TableSafe true fullCfg (mcfg₀ 1) 16 pcieState₀ := by
  rintro ⟨hw, -⟩
  have hlast : 128 < stored (visited fullCfg (mcfg₀ 1) (16 / groupSize)) := by decide +kernel
  exact lt_irrefl _ (hw 128 ((dPcieBootstrap_writes (mcfg₀_accepted 1) rfl 128).2 hlast))

end Pcie

end Cing
