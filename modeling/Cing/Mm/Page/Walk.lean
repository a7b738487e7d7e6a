/-
Page tables and the hardware that reads them. Physical memory is a map from addresses to 64-bit words;
a table is a page of 512 entries. The hardware walks four tables from the root, one for each nine
bits of the low 48 bits of an address, and stops early at an entry of a 2M page. Cached translations
are not modelled: the code flushes the two pages it changes.
-/
import Cing.Lib.Radix
import Cing.Mm.Base

namespace Cing

/-- Physical memory: the word at each address that is a multiple of 8. -/
abbrev Words := Nat → Nat

namespace Page

def tabEntryLen : Nat := 8
def tabEntryCount : Nat := 512
def pageSize1G : Nat := 1024 * 1024 * 1024

/-! ## Entries -/

/-- `_tab_entry_is_present`. -/
def tabEntryIsPresent (e : Nat) : Bool := e.testBit 0
/-- The `writable` flag. -/
def tabEntryIsWritable (e : Nat) : Bool := e.testBit 1
/-- `_tab_entry_is_huge`. -/
def tabEntryIsHuge (e : Nat) : Bool := e.testBit 7
/-- `_tab_entry_get_padd`. -/
def tabEntryGetPadd (e : Nat) : Nat := e &&& 0x0ffffffffffff000

/-- The index of an address in the table of a level, as `_vadd_tab_index` computes it. -/
def tabIndex (va level : Nat) : Fin 512 :=
  ⟨(va >>> ((level - 1) * 9 + 12)) &&& 0x1ff, Nat.and_lt_two_pow _ (by norm_num : 0x1ff < 2 ^ 9)⟩

/-! ## The hardware walk -/

/-- What the hardware finds for an address: the page, and two flags of its entry. -/
structure Leaf where
  base : Nat
  writable : Bool
  huge : Bool
deriving DecidableEq, Repr

/-- The address in an entry, as the hardware reads it. -/
def hwPadd (e : Nat) : Nat := e &&& 0x000ffffffffff000

/-- An entry of a table at a depth, the root being at depth 0, as the hardware reads it. -/
def decode (d e : Nat) : Radix.Entry Nat Leaf :=
  if tabEntryIsPresent e then
    if 3 ≤ d then .leaf ⟨hwPadd e, tabEntryIsWritable e, false⟩
    else if d = 2 ∧ tabEntryIsHuge e then .leaf ⟨hwPadd e, tabEntryIsWritable e, true⟩
    else .table (hwPadd e)
  else .absent

/-- The tables in memory. -/
def entries (m : Words) (d t : Nat) (i : Fin 512) : Radix.Entry Nat Leaf := decode d (m (t + tabEntryLen * i))

/-- The indices of an address, from the root down. -/
def key (va d : Nat) : Fin 512 := tabIndex va (4 - d)

/-- The walk from the root table. -/
def lookup (m : Words) (root va : Nat) : Option Leaf := Radix.walk (entries m) (key va) 4 0 root

/-- The physical address behind a virtual one. -/
def translate (m : Words) (root va : Nat) : Option Nat :=
  (lookup m root va).map fun l => l.base + va % (if l.huge then pageSize2M else pageSize4K)

/-- The two addresses lie in the same page, modulo 2^48. -/
def SamePage (va va' : Nat) : Prop := va / pageSize4K % 2 ^ 36 = va' / pageSize4K % 2 ^ 36

instance (va va' : Nat) : Decidable (SamePage va va') := inferInstanceAs (Decidable (_ = _))

/-! ## Bits -/

theorem and_mask {e : Nat} (he : e < 2 ^ 52) : e &&& 0x000ffffffffff000 = e / 4096 * 4096 := by
  apply Nat.eq_of_testBit_eq
  intro i
  rw [show (4096 : Nat) = 2 ^ 12 by norm_num, Nat.testBit_and, Nat.testBit_mul_two_pow, Nat.testBit_div_two_pow,
    show (0x000ffffffffff000 : Nat) = (2 ^ 40 - 1) * 2 ^ 12 by norm_num, Nat.testBit_mul_two_pow,
    Nat.testBit_two_pow_sub_one]
  by_cases h1 : 12 ≤ i
  · have e1 : i - 12 + 12 = i := by omega
    by_cases h2 : i < 52
    · simp [h1, show i - 12 < 40 by omega, e1]
    · have : e.testBit i = false :=
        Nat.testBit_lt_two_pow (he.trans_le (Nat.pow_le_pow_right (by omega) (by omega)))
      simp [this, e1]
  · simp [h1]

theorem hwPadd_eq {e : Nat} (he : e < 2 ^ 52) : hwPadd e = e / 4096 * 4096 := and_mask he

theorem tabEntryGetPadd_eq {e : Nat} (he : e < 2 ^ 52) : tabEntryGetPadd e = e / 4096 * 4096 := by
  rw [← and_mask he]
  unfold tabEntryGetPadd
  apply Nat.eq_of_testBit_eq
  intro i
  rw [Nat.testBit_and, Nat.testBit_and, show (0x000ffffffffff000 : Nat) = (2 ^ 40 - 1) * 2 ^ 12 by norm_num,
    show (0x0ffffffffffff000 : Nat) = (2 ^ 48 - 1) * 2 ^ 12 by norm_num, Nat.testBit_mul_two_pow,
    Nat.testBit_mul_two_pow, Nat.testBit_two_pow_sub_one, Nat.testBit_two_pow_sub_one]
  by_cases h2 : i < 52
  · simp [show i - 12 < 40 by omega, show i - 12 < 48 by omega]
  · have : e.testBit i = false :=
      Nat.testBit_lt_two_pow (he.trans_le (Nat.pow_le_pow_right (by omega) (by omega)))
    simp [this]

theorem tabIndex_val (va level : Nat) : (tabIndex va level : Nat) = va / 2 ^ ((level - 1) * 9 + 12) % 512 := by
  show (va >>> _) &&& 0x1ff = _
  rw [show (0x1ff : Nat) = 2 ^ 9 - 1 by norm_num, Nat.and_two_pow_sub_one_eq_mod, Nat.shiftRight_eq_div_pow]

/-! ## Pages of addresses -/

theorem key_val {va d : Nat} (hd : d < 4) : (key va d : Nat) = va / 4096 / 512 ^ (3 - d) % 512 := by
  rw [key, tabIndex_val, show (4 - d - 1) * 9 + 12 = 12 + 9 * (3 - d) by omega, pow_add, pow_mul, Nat.div_div_eq_div_mul]
  norm_num

theorem samePage_iff {va va' : Nat} : SamePage va va' ↔ ∀ d < 4, key va d = key va' d := by
  unfold SamePage pageSize4K
  constructor
  · intro h d hd
    refine Fin.ext ?_
    rw [key_val hd, key_val hd]
    interval_cases d <;> norm_num <;> omega
  · intro h
    have h0 := congrArg Fin.val (h 0 (by omega))
    have h1 := congrArg Fin.val (h 1 (by omega))
    have h2 := congrArg Fin.val (h 2 (by omega))
    have h3 := congrArg Fin.val (h 3 (by omega))
    rw [key_val (by omega), key_val (by omega)] at h0 h1 h2 h3
    norm_num at h0 h1 h2 h3
    omega

theorem samePage_path {va va' : Nat} : SamePage va va' ↔ Radix.path (key va) 4 = Radix.path (key va') 4 :=
  samePage_iff.trans ⟨Radix.path_congr, Radix.path_inj⟩

theorem lookup_samePage {m : Words} {root va va' : Nat} (h : SamePage va va') : lookup m root va = lookup m root va' :=
  Radix.walk_key fun d hd => samePage_iff.1 h d (by omega)

end Page

end Cing
