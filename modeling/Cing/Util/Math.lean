/-
util_math.c: logarithms, powers and the power-of-two test on 64-bit values, with the arithmetic on
64-bit words that the rest of the model shares.
-/
import Cing.Kernel.Panic

namespace Cing

/-! ## 64-bit words -/

/-- A value reduced to `u64_t`. -/
def u64 (n : Nat) : Nat := n % 2 ^ 64

/-- Subtraction on `u64_t`. -/
def u64Sub (a b : Nat) : Nat := (a + 2 ^ 64 - b) % 2 ^ 64

theorem u64_of_lt {n : Nat} (h : n < 2 ^ 64) : u64 n = n := Nat.mod_eq_of_lt h

theorem u64Sub_of_lt {a b : Nat} (hb : a < b) : u64Sub a b = a + 2 ^ 64 - b := by
  unfold u64Sub; omega

theorem u64Sub_of_le {a b : Nat} (hb : b ≤ a) (ha : a < 2 ^ 64) : u64Sub a b = a - b := by
  unfold u64Sub; omega

/-! ## util_math.c -/

/-- The loop of `util_math_log_2_up`: halve until nothing is left. A 64-bit value is gone after 64
rounds. -/
def log2UpLoop : Nat → Nat → Nat → Nat
  | 0, _, res => res
  | fuel + 1, val, res => if val / 2 = 0 then res else log2UpLoop fuel (val / 2) (res + 1)

/-- `util_math_log_2_up`. -/
def utilMathLog2Up (val : Nat) : Nat := if val = 0 then 1 else log2UpLoop 64 (val - 1) 0 + 1

/-- `util_math_2_exp`. -/
def utilMath2Exp (exp : Nat) : Nat := u64 (2 ^ exp)

/-- `util_math_is_pow2`, also `_math_is_pow2` of mm.c. -/
def utilMathIsPow2 (n : Nat) : Bool := n &&& u64Sub n 1 = 0

theorem log2UpLoop_eq : ∀ {fuel val res : Nat}, val < 2 ^ fuel → log2UpLoop fuel val res = res + Nat.log2 val
  | 0, val, res, h => by
    obtain rfl : val = 0 := by simpa using h
    simp [log2UpLoop]
  | fuel + 1, val, res, h => by
    unfold log2UpLoop
    by_cases hv : val / 2 = 0
    · rw [if_pos hv, Nat.log2_def, if_neg (by omega)]; rfl
    · rw [if_neg hv, log2UpLoop_eq (by rw [pow_succ] at h; omega), Nat.log2_def val, if_pos (by omega)]
      omega

/-- On `2 ≤ val` the result is the least `x` with `val ≤ 2^x`. -/
theorem utilMathLog2Up_spec {val : Nat} (h2 : 2 ≤ val) (h : val < 2 ^ 64) :
    val ≤ 2 ^ utilMathLog2Up val ∧ 2 ^ (utilMathLog2Up val - 1) < val := by
  have hlog : utilMathLog2Up val = Nat.log2 (val - 1) + 1 := by
    unfold utilMathLog2Up
    rw [if_neg (by omega), log2UpLoop_eq (by omega)]
    omega
  rw [hlog, Nat.add_sub_cancel]
  have h1 := Nat.log2_self_le (n := val - 1) (by omega)
  have h3 := Nat.lt_log2_self (n := val - 1)
  omega

theorem utilMath2Exp_of_lt {exp : Nat} (h : exp < 64) : utilMath2Exp exp = 2 ^ exp :=
  u64_of_lt (Nat.pow_lt_pow_right (by omega) h)

theorem utilMathIsPow2_two_pow {k : Nat} (hk : k < 64) : utilMathIsPow2 (2 ^ k) = true := by
  have hpos : 0 < 2 ^ k := by positivity
  have hlt : 2 ^ k < 2 ^ 64 := Nat.pow_lt_pow_right (by omega) hk
  unfold utilMathIsPow2
  rw [u64Sub_of_le (by omega) hlt, Nat.and_two_pow_sub_one_eq_mod, Nat.mod_self]
  rfl

end Cing
