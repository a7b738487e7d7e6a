/-
util_math.c: how exact the two logarithms are. `util_math_log_2_down` doubles a 64-bit word until it reaches the value, and a value
above 2^63 is reached by none: the word gets to zero and stays there. `util_math_log_2_up` never returns zero.
-/
import Mathlib.Order.Bounds.Basic
import Cing.Util.Math

namespace Cing

variable {σ : Type}

/-- The loop of `util_math_log_2_down`, at most `n` rounds. -/
def log2DownLoop (val : Nat) : Nat → Nat → Nat → EStateM Stop σ (Nat × Nat)
  | 0, _, _ => throw .hang
  | n + 1, res, exp => if res < val then log2DownLoop val n (u64 (res * 2)) (u64 (exp + 1)) else return (res, exp)

/-- `util_math_log_2_down`. -/
def utilMathLog2Down (val n : Nat) : EStateM Stop σ Nat := do
  kernelAssert (val > 0) "val > 0"
  let r ← log2DownLoop val n 1 0
  if r.1 > val then do
    kernelAssert (r.1 / 2 < val) "res < val"
    return u64Sub r.2 1
  else do
    kernelAssert (r.1 = val) "res == val"
    return r.2

variable {val n e k : Nat}

/-! ## Down -/

/-- The loop ends at the first power of two that is not below the value. -/
theorem log2DownLoop_run (hk : val ≤ 2 ^ k) (hk63 : k ≤ 63) (hlow : ∀ i < k, 2 ^ i < val) (s : σ) (hn : k - e < n) (he : e ≤ k) :
    log2DownLoop val n (2 ^ e) e s = .ok (2 ^ k, k) s := by
  induction n generalizing e with
  | zero => omega
  | succ n ih =>
    rw [log2DownLoop]
    rcases Nat.lt_or_eq_of_le he with hlt | rfl
    · have hpow : 2 ^ e * 2 < 2 ^ 64 := by
        rw [← pow_succ]
        exact Nat.pow_lt_pow_right (by omega) (by omega)
      rw [if_pos (hlow e hlt), u64_of_lt hpow, u64_of_lt (by omega), ← pow_succ]
      exact ih (by omega) hlt
    · rw [if_neg (by omega)]
      rfl

/-- Above 2^63 it never ends: the word is a power of two, or zero after 64 rounds. -/
theorem log2DownLoop_hang (hval : 2 ^ 63 < val) (s : σ) {res : Nat} (hres : res = 0 ∨ ∃ e ≤ 63, res = 2 ^ e) (exp : Nat) :
    log2DownLoop val n res exp s = .error .hang s := by
  induction n generalizing res exp with
  | zero => rfl
  | succ n ih =>
    have hlt : res < val := by
      rcases hres with rfl | ⟨e, he, rfl⟩
      · omega
      · exact (Nat.pow_le_pow_right (by omega) he).trans_lt hval
    rw [log2DownLoop, if_pos hlt]
    refine ih ?_ _
    rcases hres with rfl | ⟨e, he, rfl⟩
    · exact .inl rfl
    · rw [← pow_succ]
      rcases Nat.lt_or_eq_of_le he with he | rfl
      · exact .inr ⟨e + 1, he, u64_of_lt (Nat.pow_lt_pow_right (by omega) (by omega))⟩
      · exact .inl rfl

/-- Up to 2^63 the result is the logarithm. -/
theorem utilMathLog2Down_run (hpos : 0 < val) (hval : val ≤ 2 ^ 63) (hn : 64 ≤ n) (s : σ) :
    utilMathLog2Down val n s = .ok (Nat.log2 val) s := by
  have hle := Nat.log2_self_le (n := val) (by omega)
  have hlt := Nat.lt_log2_self (n := val)
  have hlow : ∀ i < Nat.log2 val, 2 ^ i < val := fun i hi => (Nat.pow_lt_pow_right (by omega) hi).trans_le hle
  have hlog : Nat.log2 val ≤ 63 := by
    have h64 : Nat.log2 val < 64 := (Nat.log2_lt (by omega)).2 (by omega)
    omega
  unfold utilMathLog2Down
  rw [Exec.bind_ok (kernelAssert_pos hpos _ s)]
  rcases Nat.lt_or_eq_of_le hle with hlt' | heq
  · have hlog62 : Nat.log2 val < 63 := (Nat.pow_lt_pow_iff_right (a := 2) (by omega)).1 (hlt'.trans_le hval)
    have hloop := log2DownLoop_run (e := 0) hlt.le (by omega) (fun i hi => by
      rcases Nat.lt_succ_iff_lt_or_eq.1 hi with hi | rfl
      · exact hlow i hi
      · exact hlt') s (by omega : Nat.log2 val + 1 - 0 < n) (by omega)
    rw [pow_zero] at hloop
    rw [Exec.bind_ok hloop]
    dsimp only
    rw [if_pos hlt, pow_succ, Nat.mul_div_cancel _ (by omega), Exec.bind_ok (kernelAssert_pos hlt' _ s),
      u64Sub_of_le (by omega) (by omega)]
    rfl
  · have hloop := log2DownLoop_run (e := 0) heq.ge hlog hlow s (by omega : Nat.log2 val - 0 < n) (by omega)
    rw [pow_zero] at hloop
    rw [Exec.bind_ok hloop]
    dsimp only
    rw [if_neg (by omega), Exec.bind_ok (kernelAssert_pos heq _ s)]
    rfl

theorem isGreatest_log2 (hpos : 0 < val) : IsGreatest {x | 2 ^ x ≤ val} (Nat.log2 val) :=
  ⟨Nat.log2_self_le (by omega), fun _ hx => (Nat.le_log2 (by omega)).2 hx⟩

theorem utilMathLog2Down_hang (hval : 2 ^ 63 < val) (s : σ) : utilMathLog2Down val n s = .error .hang s := by
  unfold utilMathLog2Down
  rw [Exec.bind_ok (kernelAssert_pos (by omega : val > 0) _ s),
    Exec.bind_error (log2DownLoop_hang hval s (.inr ⟨0, by omega, rfl⟩ : 1 = 0 ∨ ∃ e ≤ 63, 1 = 2 ^ e) 0)]

/-- `util_math_log_2_down` returns the largest power that is not above the value if and only if the value is at most 2^63. -/
theorem log2_down_iff (hpos : 0 < val) (s : σ) :
    (∃ n x, utilMathLog2Down val n s = .ok x s ∧ IsGreatest {x | 2 ^ x ≤ val} x) ↔ val ≤ 2 ^ 63 := by
  constructor
  · rintro ⟨n, x, hrun, -⟩
    by_contra hlt
    rw [utilMathLog2Down_hang (not_le.1 hlt) s] at hrun
    cases hrun
  · exact fun hle => ⟨64, _, utilMathLog2Down_run hpos hle le_rfl s, isGreatest_log2 hpos⟩

theorem log2_down_iff_8191 : ∃ n x, utilMathLog2Down 8191 n () = .ok x () ∧ IsGreatest {x | 2 ^ x ≤ 8191} x :=
  (log2_down_iff (by decide) ()).2 (by decide)

/-- The value after 2^63 is looked for without end. -/
theorem log2_down_runs_on :
    ¬ ∃ n x, utilMathLog2Down (2 ^ 63 + 1) n () = .ok x () ∧ IsGreatest {x | 2 ^ x ≤ 2 ^ 63 + 1} x := by
  rintro ⟨n, x, hrun, -⟩
  rw [utilMathLog2Down_hang (by decide) ()] at hrun
  cases hrun

/-! ## Up -/

/-- `util_math_log_2_up` returns the smallest power that is not below the value if and only if the value is not 1. -/
theorem log2_up_iff (hpos : 1 ≤ val) (hval : val < 2 ^ 64) : IsLeast {x | val ≤ 2 ^ x} (utilMathLog2Up val) ↔ 2 ≤ val := by
  constructor
  · rintro ⟨-, hlow⟩
    by_contra hlt
    obtain rfl : val = 1 := by omega
    exact absurd (hlow (show 1 ≤ 2 ^ 0 from le_rfl)) (by decide)
  · intro h2
    obtain ⟨hle, hlt⟩ := utilMathLog2Up_spec h2 hval
    refine ⟨hle, fun x hx => ?_⟩
    have hpow : 2 ^ (utilMathLog2Up val - 1) < 2 ^ x := hlt.trans_le hx
    have := (Nat.pow_lt_pow_iff_right (a := 2) (by omega)).1 hpow
    omega

theorem log2_up_iff_4097 : IsLeast {x | 4097 ≤ 2 ^ x} (utilMathLog2Up 4097) := (log2_up_iff (by decide) (by decide)).2 (by decide)

/-- 1 is 2^0, but the result is 1. -/
theorem log2_up_of_one : ¬ IsLeast {x | 1 ≤ 2 ^ x} (utilMathLog2Up 1) := by
  rintro ⟨-, hlow⟩
  exact absurd (hlow (show 1 ≤ 2 ^ 0 from le_rfl)) (by decide)

end Cing
