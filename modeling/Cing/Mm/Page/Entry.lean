/-
The entries that `_tab_entry_init` of mm_page.c and of mem_page.c write. The flags go to their bits of
`tab_entry_t`, and the address is read back through a mask of its own. The address is checked like a
virtual one, so addresses of the upper half pass; their upper bits are flags, and no address that is
read back has them.
-/
import Cing.Mm.Page.Model
import Cing.Mem.Model

namespace Cing.Page

/-- What the fields of `tab_entry_t` in an entry are to say: the address and the flags that were asked for, and
nothing in the other flags (bits 2 to 6 and 8 to 11), in `os_use_2` (bits 52 to 62) and in `no_exe` (bit 63). -/
structure EntryAgrees (e padd size : Nat) (present write : Bool) : Prop where
  address : tabEntryGetPadd e = padd
  present : tabEntryIsPresent e = present
  writable : tabEntryIsWritable e = write
  huge : tabEntryIsHuge e = decide (size = pageSize2M ∨ size = pageSize1G)
  clear : ∀ i, e.testBit i = true → i = 0 ∨ i = 1 ∨ i = 7 ∨ 12 ≤ i ∧ i < 52

/-- The entry both versions write. -/
def entryWord (present write : Bool) (padd size : Nat) : Nat :=
  padd ||| (if present then 1 else 0) ||| (if write then 2 else 0) ||| (if size = pageSize2M ∨ size = pageSize1G then 128 else 0)

section Bits

variable {present write : Bool} {padd size : Nat}

/-- A flag is one bit. -/
theorem testBit_flag (c : Prop) [Decidable c] (k i : Nat) : (if c then 2 ^ k else 0).testBit i = decide (c ∧ k = i) := by
  split
  · rename_i hc
    rw [Nat.testBit_two_pow]
    simp [hc]
  · rename_i hc
    rw [Nat.zero_testBit]
    simp [hc]

theorem entryWord_testBit (present write : Bool) (padd size i : Nat) : (entryWord present write padd size).testBit i =
    (padd.testBit i || decide (present = true ∧ 0 = i) || decide (write = true ∧ 1 = i) ||
      decide ((size = pageSize2M ∨ size = pageSize1G) ∧ 7 = i)) := by
  have h0 : (if present then 1 else 0).testBit i = decide (present = true ∧ 0 = i) := testBit_flag (present = true) 0 i
  have h1 : (if write then 2 else 0).testBit i = decide (write = true ∧ 1 = i) := testBit_flag (write = true) 1 i
  have h7 : (if size = pageSize2M ∨ size = pageSize1G then 128 else 0).testBit i =
      decide ((size = pageSize2M ∨ size = pageSize1G) ∧ 7 = i) := testBit_flag (size = pageSize2M ∨ size = pageSize1G) 7 i
  unfold entryWord
  rw [Nat.testBit_or, Nat.testBit_or, Nat.testBit_or, h0, h1, h7]

theorem testBit_aligned (h : padd % 4096 = 0) {i : Nat} (hi : i < 12) : padd.testBit i = false := by
  obtain ⟨a, rfl⟩ := Nat.dvd_of_mod_eq_zero h
  rw [show 4096 * a = a * 2 ^ 12 by omega, Nat.testBit_mul_two_pow, decide_eq_false (by omega), Bool.false_and]

theorem testBit_mask (e i : Nat) : (tabEntryGetPadd e).testBit i = (e.testBit i && decide (12 ≤ i ∧ i < 60)) := by
  unfold tabEntryGetPadd
  rw [Nat.testBit_and, show (0x0ffffffffffff000 : Nat) = (2 ^ 48 - 1) * 2 ^ 12 by norm_num, Nat.testBit_mul_two_pow,
    Nat.testBit_two_pow_sub_one, ← Bool.decide_and]
  congr 1
  exact decide_eq_decide.2 (by omega)

/-- An address of the lower half comes back. -/
theorem EntryAgrees.of_low (hal : padd % 4096 = 0) (hlow : padd ≤ va48LowEnd) :
    EntryAgrees (entryWord present write padd size) padd size present write := by
  have hlt : padd < 2 ^ 47 := by unfold va48LowEnd at hlow; omega
  have hhigh : ∀ i, 47 ≤ i → padd.testBit i = false := fun i hi =>
    Nat.testBit_lt_two_pow (hlt.trans_le (Nat.pow_le_pow_right (by omega) hi))
  refine ⟨Nat.eq_of_testBit_eq fun i => ?_, ?_, ?_, ?_, fun i hi => ?_⟩
  · rw [testBit_mask, entryWord_testBit]
    by_cases h1 : i < 12
    · rw [testBit_aligned hal h1, decide_eq_false (p := 12 ≤ i ∧ i < 60) (by omega), Bool.and_false]
    · rw [decide_eq_false (p := present = true ∧ 0 = i) (by omega), decide_eq_false (p := write = true ∧ 1 = i) (by omega),
        decide_eq_false (p := (size = pageSize2M ∨ size = pageSize1G) ∧ 7 = i) (by omega)]
      by_cases h2 : i < 60
      · simp [h2, Nat.le_of_not_lt h1]
      · simp [hhigh i (by omega)]
  · unfold tabEntryIsPresent
    rw [entryWord_testBit, testBit_aligned hal (by omega)]
    simp
  · unfold tabEntryIsWritable
    rw [entryWord_testBit, testBit_aligned hal (by omega)]
    simp
  · unfold tabEntryIsHuge
    rw [entryWord_testBit, testBit_aligned hal (by omega)]
    simp
  · by_contra hn
    have h1 : padd.testBit i = false := by
      by_cases h12 : i < 12
      · exact testBit_aligned hal h12
      · exact hhigh i (by omega)
    rw [entryWord_testBit, h1, decide_eq_false (by omega), decide_eq_false (by omega), decide_eq_false (by omega)] at hi
    cases hi

/-- In an address of the upper half, `no_exe` is set. -/
theorem not_entryAgrees_of_high (hpadd : padd < 2 ^ 64) (hhigh : padd ≥ va48HighStart) :
    ¬ EntryAgrees (entryWord present write padd size) padd size present write := by
  intro h
  have hbit : padd.testBit 63 = true := by
    rw [Nat.testBit_eq_decide_div_mod_eq]
    unfold va48HighStart at hhigh
    exact decide_eq_true (by omega)
  have hset : (entryWord present write padd size).testBit 63 = true := by rw [entryWord_testBit, hbit]; simp
  have := h.clear 63 hset
  omega

theorem entryAgrees_iff (hpadd : padd < 2 ^ 64) (hal : padd % 4096 = 0) (hle : padd ≤ va48LowEnd ∨ padd ≥ va48HighStart) :
    EntryAgrees (entryWord present write padd size) padd size present write ↔ padd ≤ va48LowEnd := by
  constructor
  · intro h
    exact hle.resolve_right fun hhigh => not_entryAgrees_of_high hpadd hhigh h
  · exact EntryAgrees.of_low hal

end Bits

/-! ## _tab_entry_init -/

section Init

variable {level padd size e : Nat} {present write : Bool}

/-- The sizes there are at some level. -/
theorem aligned_of_size (hsize : size = pageSize4K ∨ size = pageSize2M ∨ size = pageSize1G) (h : padd % size = 0) :
    padd % 4096 = 0 := by
  rcases hsize with rfl | rfl | rfl
  · exact h
  · unfold pageSize2M at h
    omega
  · unfold pageSize1G at h
    omega

theorem tabEntryCheck_size {s s' : PageState} (h : tabEntryCheck level size s = .ok () s') :
    size = pageSize4K ∨ size = pageSize2M ∨ size = pageSize1G := by
  unfold tabEntryCheck at h
  split_ifs at h
  · exact .inl (kernelAssert_ok h).1
  · exact (kernelAssert_ok h).1.imp_right .inl
  · exact (kernelAssert_ok h).1.imp_right .inr
  · cases h

theorem memTabEntryCheck_size {s s' : MemState} (h : Mem.tabEntryCheck level size s = .ok () s') :
    size = pageSize4K ∨ size = pageSize2M ∨ size = pageSize1G := by
  unfold Mem.tabEntryCheck at h
  split_ifs at h
  · exact .inl (kernelAssert_ok h).1
  · exact (kernelAssert_ok h).1.imp_right .inl
  · exact (kernelAssert_ok h).1.imp_right .inr
  · cases h

/-- What `_tab_entry_init` of mm_page.c accepts and writes. -/
theorem tabEntryInit_spec {s s' : PageState} (h : tabEntryInit level present write padd size s = .ok e s') :
    e = entryWord present write padd size ∧ padd % 4096 = 0 ∧ (padd ≤ va48LowEnd ∨ padd ≥ va48HighStart) := by
  unfold tabEntryInit at h
  obtain ⟨_, _, hsize, h⟩ := Exec.bind_eq_ok.1 h
  obtain ⟨_, _, hal, h⟩ := Exec.bind_eq_ok.1 h
  obtain ⟨_, _, hle, h⟩ := Exec.bind_eq_ok.1 h
  cases h
  exact ⟨rfl, aligned_of_size (tabEntryCheck_size hsize) (of_decide_eq_true (kernelAssert_ok hal).1), (kernelAssert_ok hle).1⟩

/-- The same of mem_page.c. -/
theorem memTabEntryInit_spec {s s' : MemState} (h : Mem.tabEntryInit level present write padd size s = .ok e s') :
    e = entryWord present write padd size ∧ padd % 4096 = 0 ∧ (padd ≤ va48LowEnd ∨ padd ≥ va48HighStart) := by
  unfold Mem.tabEntryInit at h
  obtain ⟨_, _, hsize, h⟩ := Exec.bind_eq_ok.1 h
  obtain ⟨_, _, hal, h⟩ := Exec.bind_eq_ok.1 h
  obtain ⟨_, _, hle, h⟩ := Exec.bind_eq_ok.1 h
  cases h
  exact ⟨rfl, aligned_of_size (memTabEntryCheck_size hsize) (of_decide_eq_true (kernelAssert_ok hal).1), (kernelAssert_ok hle).1⟩

end Init

/-- Whenever `_tab_entry_init` accepts an address, in either file, the entry says what was asked for exactly if the
address is in the lower half. -/
theorem entry_agrees_iff_low (level padd size : Nat) (present write : Bool) (hpadd : padd < 2 ^ 64) :
    (∀ s s' : PageState, ∀ e, tabEntryInit level present write padd size s = .ok e s' →
      (EntryAgrees e padd size present write ↔ padd ≤ va48LowEnd)) ∧
    (∀ s s' : MemState, ∀ e, Mem.tabEntryInit level present write padd size s = .ok e s' →
      (EntryAgrees e padd size present write ↔ padd ≤ va48LowEnd)) := by
  constructor
  · intro s s' e h
    obtain ⟨rfl, hal, hle⟩ := tabEntryInit_spec h
    exact entryAgrees_iff hpadd hal hle
  · intro s s' e h
    obtain ⟨rfl, hal, hle⟩ := memTabEntryInit_spec h
    exact entryAgrees_iff hpadd hal hle

theorem entry_agrees_iff_low_two : ∃ (s : PageState) (s' : MemState),
    tabEntryInit 2 true false 0x200000 pageSize2M s = .ok 0x200081 s ∧
    Mem.tabEntryInit 2 true false 0x200000 pageSize2M s' = .ok 0x200081 s' ∧
      EntryAgrees 0x200081 0x200000 pageSize2M true false := by
  have hrun : tabEntryInit 2 true false 0x200000 pageSize2M (⟨fun _ => 0, 0, 0, 0, false⟩ : PageState) = .ok 0x200081 _ := rfl
  refine ⟨_, ⟨fun _ => 0, 0, 0, 0, 0, 0⟩, hrun, rfl, ?_⟩
  exact ((entry_agrees_iff_low 2 0x200000 pageSize2M true false (by decide)).1 _ _ _ hrun).2 (by decide)

/-- The lowest address of the upper half is accepted in both files, and comes back without its upper four bits. -/
theorem entry_loses_address : ∃ (s : PageState) (s' : MemState) (e : Nat),
    tabEntryInit 1 true true va48HighStart pageSize4K s = .ok e s ∧
    Mem.tabEntryInit 1 true true va48HighStart pageSize4K s' = .ok e s' ∧ tabEntryGetPadd e ≠ va48HighStart ∧
    e.testBit 63 = true :=
  ⟨⟨fun _ => 0, 0, 0, 0, false⟩, ⟨fun _ => 0, 0, 0, 0, 0, 0⟩, va48HighStart + 3, rfl, rfl, by decide, by decide⟩

end Cing.Page
