/-
mm.c and mem.c: the two copies of the alignment helpers, and `mm_align_class`. Rounding up and down clears the low bits of a word;
the copies differ in the text of one assertion. `mm_align_class` doubles a word until it divides no more, and the word is zero
before that if 2^63 divides the value.
-/
import Mathlib.Algebra.Order.Ring.Nat
import Mathlib.Algebra.Ring.Parity
import Mathlib.Order.Bounds.Basic
import Cing.Mm.Base
import Cing.Mem.Frame

namespace Cing

variable {σ : Type}

/-! ## The code -/

/-- `mm_align_up` and `mem_align_up`, by the text of the check. -/
def alignUp (pow2Check : String) (p align : Nat) : EStateM Stop σ Nat := do
  kernelAssert (align > 0) "align > 0"
  kernelAssert (utilMathIsPow2 align) pow2Check
  return u64 (p + u64Sub align 1) &&& (2 ^ 64 - 1 - u64Sub align 1)

/-- `mm_align_down` and `mem_align_down`. -/
def alignDown (pow2Check : String) (p align : Nat) : EStateM Stop σ Nat := do
  kernelAssert (align > 0) "align > 0"
  kernelAssert (utilMathIsPow2 align) pow2Check
  return p &&& (2 ^ 64 - 1 - u64Sub align 1)

theorem mmAlignUp_eq : (mmAlignUp : Nat → Nat → EStateM Stop σ Nat) = alignUp "_math_is_pow2(align)" := rfl

theorem mmAlignDown_eq : (mmAlignDown : Nat → Nat → EStateM Stop σ Nat) = alignDown "_math_is_pow2(align)" := rfl

theorem Mem.memAlignUp_eq : memAlignUp = alignUp "util_math_is_pow2(align)" := rfl

/-- `mem_align_down`. -/
def Mem.memAlignDown : Nat → Nat → FrameM Nat := alignDown "util_math_is_pow2(align)"

/-- `%` on words. -/
def u64Mod (a b : Nat) : EStateM Stop σ Nat := if b = 0 then throw .divideError else return a % b

/-- The loop of `mm_align_class`, at most `n` rounds. -/
def alignClassLoop (p : Nat) : Nat → Nat → EStateM Stop σ Nat
  | 0, _ => throw .hang
  | n + 1, align => do
    let r ← u64Mod p align
    if r = 0 then alignClassLoop p n (u64 (align * 2)) else return align

/-- `mm_align_class`. In round 65 the word is zero. -/
def mmAlignClass (p : Nat) : EStateM Stop σ Nat := do
  let align ← alignClassLoop p 65 1
  let r ← u64Mod p (align / 2)
  kernelAssert (r = 0) "(p % align) == 0"
  kernelAssert (align / 2 > 1) "align > 1"
  return align / 2

/-! ## Rounding -/

/-- What alignment helpers are for: on a power of two they round to the next multiple above or below, which passes the check, stays
as it is when rounded again and grows with the value; and they stop on any other alignment. -/
structure Aligns (σ : Type) (up down : Nat → Nat → EStateM Stop σ Nat) (check : Nat → Nat → Bool) : Prop where
  up_least : ∀ {p k}, k < 64 → p + 2 ^ k - 1 < 2 ^ 64 → ∃ u, (∀ s, up p (2 ^ k) s = .ok u s) ∧ IsLeast {a | 2 ^ k ∣ a ∧ p ≤ a} u ∧
    check u (2 ^ k) = true ∧ ∀ s, up u (2 ^ k) s = .ok u s
  down_greatest : ∀ {p k}, k < 64 → p < 2 ^ 64 → ∃ d, (∀ s, down p (2 ^ k) s = .ok d s) ∧ IsGreatest {a | 2 ^ k ∣ a ∧ a ≤ p} d ∧
    check d (2 ^ k) = true ∧ ∀ s, down d (2 ^ k) s = .ok d s
  up_mono : ∀ {p p' k u u' s}, k < 64 → p ≤ p' → p' + 2 ^ k - 1 < 2 ^ 64 → up p (2 ^ k) s = .ok u s →
    up p' (2 ^ k) s = .ok u' s → u ≤ u'
  down_mono : ∀ {p p' k d d' s}, k < 64 → p ≤ p' → p' < 2 ^ 64 → down p (2 ^ k) s = .ok d s → down p' (2 ^ k) s = .ok d' s → d ≤ d'
  stops : ∀ {p align}, align ≠ 0 → align < 2 ^ 64 → ¬ align.isPowerOfTwo → ∃ e, ∀ s, up p align s = .error (.assertFail e) s ∧
    down p align s = .error (.assertFail e) s

/-- The least multiple from a value on. -/
theorem isLeast_up {a : Nat} (ha : 0 < a) (p : Nat) : IsLeast {b | a ∣ b ∧ p ≤ b} ((p + a - 1) / a * a) := by
  have hdiv := Nat.div_add_mod' (p + a - 1) a
  have hmod := Nat.mod_lt (p + a - 1) ha
  refine ⟨⟨Nat.dvd_mul_left .., by omega⟩, ?_⟩
  rintro b ⟨⟨c, rfl⟩, hp⟩
  have hlt : (p + a - 1) / a < c + 1 := by
    rw [Nat.div_lt_iff_lt_mul ha, Nat.succ_mul, Nat.mul_comm]
    omega
  rw [Nat.mul_comm a]
  exact Nat.mul_le_mul_right a (Nat.le_of_lt_succ hlt)

/-- The greatest multiple up to a value. -/
theorem isGreatest_down {a : Nat} (ha : 0 < a) (p : Nat) : IsGreatest {b | a ∣ b ∧ b ≤ p} (p / a * a) := by
  refine ⟨⟨Nat.dvd_mul_left .., Nat.div_mul_le_self p a⟩, ?_⟩
  rintro b ⟨⟨c, rfl⟩, hp⟩
  rw [Nat.mul_comm a] at hp ⊢
  exact Nat.mul_le_mul_right a ((Nat.le_div_iff_mul_le ha).2 hp)

variable {p k : Nat} (pow2Check : String)

theorem alignUp_run (hk : k < 64) (hp : p + 2 ^ k - 1 < 2 ^ 64) (s : σ) :
    alignUp pow2Check p (2 ^ k) s = .ok ((p + 2 ^ k - 1) / 2 ^ k * 2 ^ k) s := by
  have hrun := mmAlignUp_run hp hk s
  have hpos : 2 ^ k > 0 := by positivity
  rw [mmAlignUp_eq] at hrun
  unfold alignUp at hrun ⊢
  rw [Exec.bind_ok (kernelAssert_pos hpos _ s), Exec.bind_ok (kernelAssert_pos (utilMathIsPow2_two_pow hk) _ s)] at hrun ⊢
  exact hrun

theorem alignDown_run (hk : k < 64) (hp : p < 2 ^ 64) (s : σ) : alignDown pow2Check p (2 ^ k) s = .ok (p / 2 ^ k * 2 ^ k) s := by
  have hrun := mmAlignDown_run hp hk s
  have hpos : 2 ^ k > 0 := by positivity
  rw [mmAlignDown_eq] at hrun
  unfold alignDown at hrun ⊢
  rw [Exec.bind_ok (kernelAssert_pos hpos _ s), Exec.bind_ok (kernelAssert_pos (utilMathIsPow2_two_pow hk) _ s)] at hrun ⊢
  exact hrun

/-- The test of a power of two is right on words other than zero. -/
theorem utilMathIsPow2_iff {n : Nat} (h0 : n ≠ 0) (hn : n < 2 ^ 64) : utilMathIsPow2 n = true ↔ n.isPowerOfTwo := by
  unfold utilMathIsPow2
  rw [decide_eq_true_iff, u64Sub_of_le (by omega) hn, Nat.and_sub_one_eq_zero_iff_isPowerOfTwo h0]

/-- What is rounded up can be rounded up again. -/
theorem up_fits (hk : k < 64) (hp : p + 2 ^ k - 1 < 2 ^ 64) : (p + 2 ^ k - 1) / 2 ^ k * 2 ^ k + 2 ^ k - 1 < 2 ^ 64 := by
  have hpos : 0 < 2 ^ k := by positivity
  have hpow : 2 ^ k * 2 ^ (64 - k) = 2 ^ 64 := by
    rw [← pow_add]
    congr 1
    omega
  have hdvd : 2 ^ k ∣ 2 ^ 64 - 2 ^ k := Nat.dvd_sub ⟨_, hpow.symm⟩ dvd_rfl
  have hle := (isLeast_up hpos p).2 ⟨hdvd, by omega⟩
  have hk64 : 2 ^ k < 2 ^ 64 := Nat.pow_lt_pow_right (by omega) hk
  omega

theorem aligns : Aligns σ (alignUp pow2Check) (alignDown pow2Check) mmAlignCheck where
  up_least {p k} hk hp := by
    have hpos : 0 < 2 ^ k := by positivity
    refine ⟨_, alignUp_run pow2Check hk hp, isLeast_up hpos p, mmAlignCheck_iff.2 (Nat.mul_mod_left ..), fun s => ?_⟩
    have hsame := (isLeast_up hpos ((p + 2 ^ k - 1) / 2 ^ k * 2 ^ k)).unique ⟨⟨Nat.dvd_mul_left .., le_rfl⟩, fun b hb => hb.2⟩
    rw [alignUp_run pow2Check hk (up_fits hk hp), hsame]
  down_greatest {p k} hk hp := by
    have hpos : 0 < 2 ^ k := by positivity
    refine ⟨_, alignDown_run pow2Check hk hp, isGreatest_down hpos p, mmAlignCheck_iff.2 (Nat.mul_mod_left ..), fun s => ?_⟩
    rw [alignDown_run pow2Check hk ((Nat.div_mul_le_self ..).trans_lt hp), Nat.mul_div_cancel _ hpos]
  up_mono {p p' k u u' s} hk hle hp' hu hu' := by
    have hpos : 0 < 2 ^ k := by positivity
    rw [alignUp_run pow2Check hk (by omega)] at hu
    rw [alignUp_run pow2Check hk hp'] at hu'
    cases hu
    cases hu'
    obtain ⟨⟨hdvd, hge⟩, -⟩ := isLeast_up hpos p'
    exact (isLeast_up hpos p).2 ⟨hdvd, hle.trans hge⟩
  down_mono {p p' k d d' s} hk hle hp' hd hd' := by
    rw [alignDown_run pow2Check hk (by omega)] at hd
    rw [alignDown_run pow2Check hk hp'] at hd'
    cases hd
    cases hd'
    exact Nat.mul_le_mul_right _ (Nat.div_le_div_right hle)
  stops {p align} h0 hlt hpow := by
    have hcheck : ¬ utilMathIsPow2 align = true := fun h => hpow ((utilMathIsPow2_iff h0 hlt).1 h)
    refine ⟨pow2Check, fun s => ⟨?_, ?_⟩⟩
    · unfold alignUp
      rw [Exec.bind_ok (kernelAssert_pos (Nat.pos_of_ne_zero h0) _ s), Exec.bind_error (kernelAssert_neg hcheck _ s)]
    · unfold alignDown
      rw [Exec.bind_ok (kernelAssert_pos (Nat.pos_of_ne_zero h0) _ s), Exec.bind_error (kernelAssert_neg hcheck _ s)]

/-- Both copies round as they should, and to the same. -/
theorem align_copies_exact : Aligns σ mmAlignUp mmAlignDown mmAlignCheck ∧
    Aligns FrameState Mem.memAlignUp Mem.memAlignDown Mem.memAlignCheck ∧ mmAlignCheck = Mem.memAlignCheck ∧
    ∀ k < 64, ∀ p, p + 2 ^ k - 1 < 2 ^ 64 → ∀ s,
      mmAlignUp p (2 ^ k) s = Mem.memAlignUp p (2 ^ k) s ∧ mmAlignDown p (2 ^ k) s = Mem.memAlignDown p (2 ^ k) s := by
  rw [mmAlignUp_eq, mmAlignDown_eq, Mem.memAlignUp_eq]
  refine ⟨aligns "_math_is_pow2(align)", aligns "util_math_is_pow2(align)", rfl, fun k hk p hp s => ⟨?_, ?_⟩⟩
  · exact (alignUp_run _ hk hp s).trans (alignUp_run _ hk hp s).symm
  · have hpos : 0 < 2 ^ k := by positivity
    exact (alignDown_run _ hk (by omega) s).trans (alignDown_run _ hk (by omega) s).symm

/-! ## mm_align_class -/

variable {m n e : Nat}

/-- The loop ends at the first power of two that does not divide the value. -/
theorem alignClassLoop_run (hodd : Odd m) (hk : k < 63) (s : σ) (hn : k + 1 - e < n) (he : e ≤ k + 1) :
    alignClassLoop (2 ^ k * m) n (2 ^ e) s = .ok (2 ^ (k + 1)) s := by
  have hmod : ∀ i, u64Mod (2 ^ k * m) (2 ^ i) s = .ok (2 ^ k * m % 2 ^ i) s := fun i => by
    unfold u64Mod
    rw [if_neg (by positivity)]
    rfl
  induction n generalizing e with
  | zero => omega
  | succ n ih =>
    rw [alignClassLoop, Exec.bind_ok (hmod e)]
    rcases Nat.lt_or_eq_of_le he with hlt | rfl
    · have hdvd : 2 ^ e ∣ 2 ^ k * m := (pow_dvd_pow 2 (Nat.le_of_lt_succ hlt)).mul_right m
      have hpow : 2 ^ e * 2 < 2 ^ 64 := by
        rw [← pow_succ]
        exact Nat.pow_lt_pow_right (by omega) (by omega)
      rw [if_pos (Nat.mod_eq_zero_of_dvd hdvd), u64_of_lt hpow, ← pow_succ]
      exact ih (by omega) hlt
    · have hno : ¬ 2 ^ k * m % 2 ^ (k + 1) = 0 := by
        rw [pow_succ, Nat.mul_mod_mul_left, Nat.odd_iff.1 hodd]
        positivity
      rw [if_neg hno]
      rfl

/-- A value that 2^63 divides is divided by zero in the end. -/
theorem alignClassLoop_fault (hp : p % 2 ^ 63 = 0) (s : σ) (hn : 64 - e < n) (he : e ≤ 63) :
    alignClassLoop p n (2 ^ e) s = .error .divideError s := by
  induction n generalizing e with
  | zero => omega
  | succ n ih =>
    have hdvd : 2 ^ e ∣ p := (pow_dvd_pow 2 he).trans (Nat.dvd_of_mod_eq_zero hp)
    have hmod : u64Mod p (2 ^ e) s = .ok 0 s := by
      unfold u64Mod
      rw [if_neg (by positivity), Nat.mod_eq_zero_of_dvd hdvd]
      rfl
    rw [alignClassLoop, Exec.bind_ok hmod, if_pos rfl, ← pow_succ]
    rcases Nat.lt_or_eq_of_le he with hlt | rfl
    · rw [u64_of_lt (Nat.pow_lt_pow_right (by omega) (by omega))]
      exact ih (by omega) hlt
    · obtain ⟨n, rfl⟩ : ∃ n', n = n' + 1 := ⟨n - 1, by omega⟩
      rfl

/-- What `mm_align_class` is for: the largest power of two that divides an even value, and an assertion for zero and odd values. -/
structure ClassExact (p : Nat) (s : σ) : Prop where
  even : p ≠ 0 → p % 2 = 0 → ∃ align, mmAlignClass p s = .ok align s ∧ IsGreatest {a | a.isPowerOfTwo ∧ a ∣ p} align
  other : p = 0 ∨ p % 2 = 1 → ∃ e, mmAlignClass p s = .error (.assertFail e) s

theorem mmAlignClass_fault (hp : p % 2 ^ 63 = 0) (s : σ) : mmAlignClass p s = .error .divideError s := by
  have hloop := alignClassLoop_fault hp s (by omega : 64 - 0 < 65) (by omega)
  rw [pow_zero] at hloop
  unfold mmAlignClass
  rw [Exec.bind_error hloop]

theorem isGreatest_class (hodd : Odd m) : IsGreatest {a | a.isPowerOfTwo ∧ a ∣ 2 ^ k * m} (2 ^ k) := by
  refine ⟨⟨⟨k, rfl⟩, Nat.dvd_mul_right ..⟩, ?_⟩
  rintro a ⟨⟨i, rfl⟩, hdvd⟩
  have hcop : Nat.Coprime (2 ^ i) m := Nat.Coprime.pow_left i (Nat.coprime_two_left.2 hodd)
  exact Nat.le_of_dvd (by positivity) (hcop.dvd_of_dvd_mul_right hdvd)

theorem mmAlignClass_run (hodd : Odd m) (hk : k < 63) (s : σ) :
    mmAlignClass (2 ^ k * m) s = if k = 0 then .error (.assertFail "align > 1") s else .ok (2 ^ k) s := by
  have hloop := alignClassLoop_run hodd hk s (by omega : k + 1 - 0 < 65) (by omega)
  rw [pow_zero] at hloop
  have hmod : u64Mod (2 ^ k * m) (2 ^ k) s = .ok 0 s := by
    unfold u64Mod
    rw [if_neg (by positivity), Nat.mul_mod_right]
    rfl
  unfold mmAlignClass
  rw [Exec.bind_ok hloop, pow_succ, Nat.mul_div_cancel _ (by omega), Exec.bind_ok hmod, Exec.bind_ok (kernelAssert_pos rfl _ s)]
  split
  next h0 =>
    rw [h0, Exec.bind_error (kernelAssert_neg (by decide) _ s)]
  next h0 =>
    rw [Exec.bind_ok (kernelAssert_pos (Nat.one_lt_two_pow h0) _ s)]
    rfl

/-- `mm_align_class` does what it is for if and only if the value is neither zero nor 2^63, the words that 2^63 divides. -/
theorem align_class_iff (hp : p < 2 ^ 64) (s : σ) : ClassExact p s ↔ p ≠ 0 ∧ p ≠ 2 ^ 63 := by
  constructor
  · intro h
    constructor
    · rintro rfl
      obtain ⟨e, hrun⟩ := h.other (.inl rfl)
      rw [mmAlignClass_fault rfl s] at hrun
      cases hrun
    · rintro rfl
      obtain ⟨align, hrun, -⟩ := h.even (by decide) (by decide)
      rw [mmAlignClass_fault (by decide) s] at hrun
      cases hrun
  · rintro ⟨h0, h63⟩
    obtain ⟨k, m, hodd, rfl⟩ := Nat.exists_eq_two_pow_mul_odd h0
    have hm : 1 ≤ m := hodd.pos
    have hk : k < 63 := by
      by_contra hk
      have hpow : 2 ^ 63 ≤ 2 ^ k := Nat.pow_le_pow_right (by omega) (by omega)
      have hm1 : m < 2 := by
        by_contra hm2
        have := Nat.mul_le_mul hpow (not_lt.1 hm2)
        omega
      obtain rfl : m = 1 := by omega
      have hk64 : k < 64 := (Nat.pow_lt_pow_iff_right (a := 2) (by omega)).1 (by omega)
      obtain rfl : k = 63 := by omega
      exact h63 rfl
    have hrun := mmAlignClass_run hodd hk s
    refine ⟨fun _ heven => ?_, fun hother => ?_⟩
    · have hk0 : k ≠ 0 := by
        rintro rfl
        rw [pow_zero, Nat.one_mul] at heven
        have := Nat.odd_iff.1 hodd
        omega
      rw [if_neg hk0] at hrun
      exact ⟨2 ^ k, hrun, isGreatest_class hodd⟩
    · have hk0 : k = 0 := by
        by_contra hk0
        have heven : 2 ^ k * m % 2 = 0 := Nat.mod_eq_zero_of_dvd ((dvd_pow_self 2 hk0).mul_right m)
        omega
      rw [if_pos hk0] at hrun
      exact ⟨_, hrun⟩

theorem align_class_iff_16K : ClassExact 0xFFFFC000 () := (align_class_iff (by decide) ()).2 (by decide)

/-- Zero is no assertion but a fault. -/
theorem align_class_of_zero : ¬ ClassExact 0 () := by
  intro h
  obtain ⟨e, hrun⟩ := h.other (.inl rfl)
  rw [mmAlignClass_fault rfl ()] at hrun
  cases hrun

end Cing
