/-
mm_private.h and mm.c: the virtual address layout of the kernel, page sizes and the alignment
helpers of the `mm` subsystem.
-/
import Cing.Util.Math

namespace Cing

/-! ## mm_private.h -/

def pageSizeLog4K : Nat := 12
def pageSize4K : Nat := 4096
def pageSize2M : Nat := 2 * 1024 * 1024

def va48LowEnd : Nat := 0x00007FFFFFFFFFFF
def va48HighStart : Nat := 0xFFFF800000000000
def va48PcieCfgStart : Nat := va48HighStart + 4096 * pageSize4K
def va48PcieCfgEnd : Nat := va48PcieCfgStart + 1024 * 1024 * pageSize4K
def va48DirectAccessPage : Nat := va48PcieCfgEnd
def va48Heap : Nat := va48DirectAccessPage + pageSize4K

theorem va48Heap_eq : va48Heap = 18446603340532944896 := rfl

/-! ## mm.c -/

/-- `mm_align_check`. -/
def mmAlignCheck (p align : Nat) : Bool := p % align = 0

theorem mmAlignCheck_iff {p align : Nat} : mmAlignCheck p align = true ↔ p % align = 0 := by
  unfold mmAlignCheck
  rw [decide_eq_true_iff]

variable {σ : Type}

/-- `mm_align_up`. -/
def mmAlignUp (p align : Nat) : EStateM Stop σ Nat := do
  kernelAssert (align > 0) "align > 0"
  kernelAssert (utilMathIsPow2 align) "_math_is_pow2(align)"
  return u64 (p + u64Sub align 1) &&& (2 ^ 64 - 1 - u64Sub align 1)

/-- `mm_align_down`. -/
def mmAlignDown (p align : Nat) : EStateM Stop σ Nat := do
  kernelAssert (align > 0) "align > 0"
  kernelAssert (utilMathIsPow2 align) "_math_is_pow2(align)"
  return p &&& (2 ^ 64 - 1 - u64Sub align 1)

/-- Clearing the low `k` bits of a 64-bit value rounds it down to a multiple of `2^k`. -/
theorem and_not_low {p k : Nat} (hp : p < 2 ^ 64) (hk : k < 64) :
    p &&& (2 ^ 64 - 1 - (2 ^ k - 1)) = p / 2 ^ k * 2 ^ k := by
  have hpos : 0 < 2 ^ k := by positivity
  have hlt : 2 ^ k < 2 ^ 64 := Nat.pow_lt_pow_right (by omega) hk
  have hmask : 2 ^ 64 - 1 - (2 ^ k - 1) = 2 ^ 64 - ((2 ^ k - 1) + 1) := by omega
  apply Nat.eq_of_testBit_eq
  intro i
  rw [Nat.testBit_and, hmask, Nat.testBit_two_pow_sub_succ (by omega), Nat.testBit_two_pow_sub_one,
    Nat.testBit_mul_two_pow, Nat.testBit_div_two_pow]
  by_cases hi : k ≤ i
  · have hik : i - k + k = i := by omega
    by_cases h64 : i < 64
    · simp [hi, h64, hik]
    · have : p.testBit i = false :=
        Nat.testBit_lt_two_pow (hp.trans_le (Nat.pow_le_pow_right (by omega) (by omega)))
      simp [hi, hik, this]
  · have hik : i < k := by omega
    simp [hi, hik]

theorem mmAlignDown_run {p k : Nat} (hp : p < 2 ^ 64) (hk : k < 64) (s : σ) :
    mmAlignDown p (2 ^ k) s = .ok (p / 2 ^ k * 2 ^ k) s := by
  have hpos : 0 < 2 ^ k := by positivity
  have hlt : 2 ^ k < 2 ^ 64 := Nat.pow_lt_pow_right (by omega) hk
  unfold mmAlignDown
  rw [Exec.bind_ok (kernelAssert_pos hpos _ s), Exec.bind_ok (kernelAssert_pos (utilMathIsPow2_two_pow hk) _ s),
    u64Sub_of_le (by omega) hlt, and_not_low hp hk]
  rfl

theorem mmAlignUp_run {p k : Nat} (hp : p + 2 ^ k - 1 < 2 ^ 64) (hk : k < 64) (s : σ) :
    mmAlignUp p (2 ^ k) s = .ok ((p + 2 ^ k - 1) / 2 ^ k * 2 ^ k) s := by
  have hpos : 0 < 2 ^ k := by positivity
  have hlt : 2 ^ k < 2 ^ 64 := Nat.pow_lt_pow_right (by omega) hk
  unfold mmAlignUp
  rw [Exec.bind_ok (kernelAssert_pos hpos _ s), Exec.bind_ok (kernelAssert_pos (utilMathIsPow2_two_pow hk) _ s),
    u64Sub_of_le (by omega) hlt, u64_of_lt (by omega), and_not_low (by omega) hk,
    show p + (2 ^ k - 1) = p + 2 ^ k - 1 by omega]
  rfl

end Cing
