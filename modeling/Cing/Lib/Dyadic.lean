/-
Aligned blocks of power-of-two size. A block of class `c` is `[p, p + 2^c)` with `2^c ∣ p`; its
buddy is the other half of the class `c + 1` block around it. A tiling cuts `[0, N)` into such
blocks. Splitting a block, merging two buddies and appending a block keep a tiling, and next to
every block of a tiling below the top class its buddy's first point starts a block again.
-/
import Mathlib.Tactic

namespace Dyadic

/-! ## Multiples of one step -/

theorem eq_of_dvd_of_lt {d x y : Nat} (hx : d ∣ x) (hy : d ∣ y) (h1 : x ≤ y) (h2 : y < x + d) : x = y := by
  have h : y - x = 0 := Nat.eq_zero_of_dvd_of_lt (Nat.dvd_sub hy hx) (by omega)
  omega

theorem add_le_of_dvd_of_lt {d x y : Nat} (hx : d ∣ x) (hy : d ∣ y) (h : x < y) : x + d ≤ y := by
  by_contra hc
  have := eq_of_dvd_of_lt hx hy (by omega) (by omega)
  omega

theorem pow_dvd_pow_of_le {c c' : Nat} (h : c ≤ c') : 2 ^ c ∣ 2 ^ c' := Nat.pow_dvd_pow 2 h

/-! ## Buddies -/

/-- The first point of the other half of the class `c + 1` block around `[p, p + 2^c)`. -/
def buddy (p c : Nat) : Nat := if p / 2 ^ c % 2 = 0 then p + 2 ^ c else p - 2 ^ c

/-- The first point of the class `c + 1` block around `[p, p + 2^c)`. -/
def lower (p c : Nat) : Nat := if p / 2 ^ c % 2 = 0 then p else p - 2 ^ c

variable {p c : Nat}

/-- An aligned block is the lower or the upper half of the block around it. -/
theorem lower_cases (hp : 2 ^ c ∣ p) :
    2 ^ (c + 1) ∣ lower p c ∧
      ((p = lower p c ∧ buddy p c = lower p c + 2 ^ c) ∨ (p = lower p c + 2 ^ c ∧ buddy p c = lower p c)) := by
  obtain ⟨k, rfl⟩ := hp
  have hpos : 0 < 2 ^ c := by positivity
  unfold buddy lower
  rw [Nat.mul_div_cancel_left k hpos, pow_succ]
  rcases Nat.mod_two_eq_zero_or_one k with hk | hk
  · rw [if_pos hk, if_pos hk]
    exact ⟨Nat.mul_dvd_mul_left _ (Nat.dvd_of_mod_eq_zero hk), .inl ⟨rfl, rfl⟩⟩
  · obtain ⟨j, rfl⟩ : ∃ j, k = 2 * j + 1 := ⟨k / 2, by omega⟩
    have hsub : 2 ^ c * (2 * j + 1) - 2 ^ c = 2 ^ c * 2 * j := by
      rw [Nat.mul_add, Nat.mul_one, Nat.add_sub_cancel, Nat.mul_assoc]
    have hodd : ¬ (2 * j + 1) % 2 = 0 := by omega
    rw [if_neg hodd, if_neg hodd, hsub]
    refine ⟨Dvd.intro _ rfl, .inr ⟨?_, rfl⟩⟩
    ring

theorem buddy_dvd (hp : 2 ^ c ∣ p) : 2 ^ c ∣ buddy p c := by
  obtain ⟨hl, ⟨-, h⟩ | ⟨-, h⟩⟩ := lower_cases hp
  · rw [h]; exact Nat.dvd_add ((pow_dvd_pow_of_le (by omega)).trans hl) dvd_rfl
  · rw [h]; exact (pow_dvd_pow_of_le (by omega)).trans hl

theorem buddy_ne (hp : 2 ^ c ∣ p) : buddy p c ≠ p := by
  have hpos : 0 < 2 ^ c := by positivity
  obtain ⟨-, ⟨h1, h2⟩ | ⟨h1, h2⟩⟩ := lower_cases hp <;> omega

/-- Two halves of the same block have the same block around them. -/
theorem lower_unique {q : Nat} (hq : 2 ^ (c + 1) ∣ q) : lower q c = q ∧ lower (q + 2 ^ c) c = q := by
  have hpos : 0 < 2 ^ c := by positivity
  have hqc : 2 ^ c ∣ q := (pow_dvd_pow_of_le (by omega)).trans hq
  have hq' : 2 ^ c ∣ q + 2 ^ c := Nat.dvd_add hqc dvd_rfl
  have h2 : 2 ^ (c + 1) = 2 ^ c + 2 ^ c := by ring
  constructor
  · obtain ⟨hl, ⟨h, -⟩ | ⟨h, -⟩⟩ := lower_cases hqc
    · exact h.symm
    · exact eq_of_dvd_of_lt hl hq (by omega) (by omega)
  · obtain ⟨hl, ⟨h, -⟩ | ⟨h, -⟩⟩ := lower_cases hq'
    · exact (eq_of_dvd_of_lt hq hl (by omega) (by omega)).symm
    · omega

theorem buddy_lower {q : Nat} (hq : 2 ^ (c + 1) ∣ q) : buddy q c = q + 2 ^ c := by
  have hpos : 0 < 2 ^ c := by positivity
  obtain ⟨h1, -⟩ := lower_unique (c := c) hq
  obtain ⟨-, ⟨-, h⟩ | ⟨h, -⟩⟩ := lower_cases (c := c) ((pow_dvd_pow_of_le (by omega)).trans hq)
  · rw [h, h1]
  · omega

theorem buddy_upper {q : Nat} (hq : 2 ^ (c + 1) ∣ q) : buddy (q + 2 ^ c) c = q := by
  have hpos : 0 < 2 ^ c := by positivity
  have hq' : 2 ^ c ∣ q + 2 ^ c := Nat.dvd_add ((pow_dvd_pow_of_le (by omega)).trans hq) dvd_rfl
  obtain ⟨-, h2⟩ := lower_unique (c := c) hq
  obtain ⟨-, ⟨h, -⟩ | ⟨-, h⟩⟩ := lower_cases hq'
  · omega
  · rw [h, h2]

theorem buddy_buddy (hp : 2 ^ c ∣ p) : buddy (buddy p c) c = p := by
  obtain ⟨hl, ⟨h1, h2⟩ | ⟨h1, h2⟩⟩ := lower_cases hp
  · rw [h2, buddy_upper hl, ← h1]
  · rw [h2, buddy_lower hl, ← h1]

/-! ## Tilings -/

/-- `cls` gives the class of the block that starts at a point; the blocks are aligned and cut
`[0, N)` without gap or overlap. -/
structure Tiling (cls : Nat → Option Nat) (N : Nat) : Prop where
  dvd : ∀ {p c}, cls p = some c → 2 ^ c ∣ p
  le : ∀ {p c}, cls p = some c → p + 2 ^ c ≤ N
  cover : ∀ q < N, ∃ p c, cls p = some c ∧ p ≤ q ∧ q < p + 2 ^ c
  disj : ∀ {p c p' c'}, cls p = some c → cls p' = some c' → p < p' → p + 2 ^ c ≤ p'

variable {cls : Nat → Option Nat} {N : Nat}

theorem tiling_empty : Tiling (fun _ => none) 0 := ⟨nofun, nofun, fun q hq => by omega, nofun⟩

/-- A point in a block that starts a block is that block's first point. -/
theorem Tiling.start_unique (t : Tiling cls N) {q c' : Nat} (h : cls p = some c) (h' : cls q = some c')
    (h1 : p ≤ q) (h2 : q < p + 2 ^ c) : q = p := by
  by_contra hne
  have := t.disj h h' (by omega)
  omega

/-- The first point after a block starts a block, unless the tiling ends there. -/
theorem Tiling.next (t : Tiling cls N) (h : cls p = some c) (hN : p + 2 ^ c < N) :
    ∃ c', cls (p + 2 ^ c) = some c' := by
  obtain ⟨q, c', hq, h1, h2⟩ := t.cover _ hN
  have hpos : 0 < 2 ^ c := by positivity
  have hpq : p < q := by
    by_contra hc
    rcases Nat.lt_or_ge q p with hlt | hge
    · have := t.disj hq h hlt; omega
    · obtain rfl : q = p := by omega
      have : c' = c := by rw [hq] at h; injection h
      subst this; omega
  have := t.disj h hq hpq
  obtain rfl : q = p + 2 ^ c := by omega
  exact ⟨c', hq⟩

theorem Tiling.first (t : Tiling cls N) (hN : 0 < N) : ∃ c, cls 0 = some c := by
  obtain ⟨p, c, h, h1, -⟩ := t.cover 0 hN
  obtain rfl : p = 0 := by omega
  exact ⟨c, h⟩

/-- Below the top class, a block's buddy position starts a block of at most the same class. -/
theorem Tiling.buddy_start (t : Tiling cls N) {top : Nat} (hN : 2 ^ top ∣ N) (h : cls p = some c)
    (hc : c < top) : ∃ c' ≤ c, cls (buddy p c) = some c' := by
  have hp := t.dvd h
  have hle := t.le h
  have hpos : 0 < 2 ^ c := by positivity
  have h2 : 2 ^ (c + 1) = 2 ^ c + 2 ^ c := by ring
  have hN' : 2 ^ (c + 1) ∣ N := (pow_dvd_pow_of_le hc).trans hN
  obtain ⟨hl, hcase⟩ := lower_cases hp
  have hroom : lower p c + 2 ^ (c + 1) ≤ N := add_le_of_dvd_of_lt hl hN' (by rcases hcase with h | h <;> omega)
  obtain ⟨q, c', hq, h1, h3⟩ := t.cover (buddy p c) (by rcases hcase with h | h <;> omega)
  have hqd := t.dvd hq
  rcases Nat.lt_or_ge c c' with hlt | hge
  · -- a larger block around the buddy would contain the block itself
    exfalso
    have hqd' : 2 ^ (c + 1) ∣ q := (pow_dvd_pow_of_le hlt).trans hqd
    have hqe : 2 ^ (c + 1) ∣ q + 2 ^ c' := Nat.dvd_add hqd' (pow_dvd_pow_of_le hlt)
    have hql : q ≤ lower p c := by
      by_contra hcon
      have := add_le_of_dvd_of_lt hl hqd' (by omega)
      rcases hcase with ⟨_, _⟩ | ⟨_, _⟩ <;> omega
    have hqu : lower p c + 2 ^ (c + 1) ≤ q + 2 ^ c' :=
      add_le_of_dvd_of_lt hl hqe (by rcases hcase with ⟨_, _⟩ | ⟨_, _⟩ <;> omega)
    have hpq := t.start_unique hq h (by rcases hcase with ⟨_, _⟩ | ⟨_, _⟩ <;> omega)
      (by rcases hcase with ⟨_, _⟩ | ⟨_, _⟩ <;> omega)
    subst hpq
    rw [hq] at h; injection h with h; omega
  · have : q = buddy p c := eq_of_dvd_of_lt hqd ((pow_dvd_pow_of_le hge).trans (buddy_dvd hp)) h1 h3
    exact ⟨c', hge, this ▸ hq⟩

/-! ## Cutting and joining -/

/-- Two halves in place of one block. -/
theorem Tiling.split (t : Tiling cls N) (h : cls p = some (c + 1)) :
    Tiling (Function.update (Function.update cls p (some c)) (p + 2 ^ c) (some c)) N := by
  have hpos : 0 < 2 ^ c := by positivity
  have h2 : 2 ^ (c + 1) = 2 ^ c + 2 ^ c := by ring
  have hd := t.dvd h
  have hle := t.le h
  have hdc : 2 ^ c ∣ p := (pow_dvd_pow_of_le (by omega)).trans hd
  -- a block of the new tiling is one of the halves or an old block beside them
  have hcase : ∀ {q c'}, Function.update (Function.update cls p (some c)) (p + 2 ^ c) (some c) q = some c' →
      (q = p ∧ c' = c) ∨ (q = p + 2 ^ c ∧ c' = c) ∨
        (cls q = some c' ∧ q ≠ p ∧ (q + 2 ^ c' ≤ p ∨ p + 2 ^ (c + 1) ≤ q)) := by
    intro q c' hq
    rw [Function.update_apply, Function.update_apply] at hq
    split_ifs at hq with h1 h3
    · injection hq with hq; exact .inr (.inl ⟨h1, hq.symm⟩)
    · injection hq with hq; exact .inl ⟨h3, hq.symm⟩
    · refine .inr (.inr ⟨hq, h3, ?_⟩)
      rcases Nat.lt_or_ge q p with hlt | hge
      · exact .inl (t.disj hq h hlt)
      · exact .inr (t.disj h hq (by omega))
  refine ⟨?_, ?_, ?_, ?_⟩
  · intro q c' hq
    rcases hcase hq with ⟨rfl, rfl⟩ | ⟨rfl, rfl⟩ | ⟨hq, -, -⟩
    · exact hdc
    · exact Nat.dvd_add hdc dvd_rfl
    · exact t.dvd hq
  · intro q c' hq
    rcases hcase hq with ⟨rfl, rfl⟩ | ⟨rfl, rfl⟩ | ⟨hq, -, -⟩
    · omega
    · omega
    · exact t.le hq
  · intro q hq
    obtain ⟨r, c', hr, h3, h4⟩ := t.cover q hq
    by_cases hrp : r = p
    · subst hrp
      rw [h] at hr; injection hr with hr; subst hr
      rcases Nat.lt_or_ge q (r + 2 ^ c) with hlt | hge
      · exact ⟨r, c, by rw [Function.update_of_ne (by omega), Function.update_self], h3, hlt⟩
      · exact ⟨r + 2 ^ c, c, Function.update_self .., hge, by omega⟩
    · have hne : r ≠ p + 2 ^ c := fun he => hrp (t.start_unique h hr (by omega) (by omega))
      exact ⟨r, c', by rw [Function.update_of_ne hne, Function.update_of_ne hrp]; exact hr, h3, h4⟩
  · intro q c' q' c'' hq hq' hlt
    have hpos'' : 0 < 2 ^ c'' := by positivity
    rcases hcase hq with ⟨rfl, rfl⟩ | ⟨rfl, rfl⟩ | ⟨hq, -, hs⟩ <;>
      rcases hcase hq' with ⟨rfl, rfl⟩ | ⟨rfl, rfl⟩ | ⟨hq', -, hs'⟩
    any_goals omega
    exact t.disj hq hq' hlt

/-- One block in place of two buddies. -/
theorem Tiling.merge (t : Tiling cls N) (hd : 2 ^ (c + 1) ∣ p) (h : cls p = some c)
    (h' : cls (p + 2 ^ c) = some c) :
    Tiling (Function.update (Function.update cls (p + 2 ^ c) none) p (some (c + 1))) N := by
  have hpos : 0 < 2 ^ c := by positivity
  have h2 : 2 ^ (c + 1) = 2 ^ c + 2 ^ c := by ring
  have hle := t.le h'
  have hcase : ∀ {q c'}, Function.update (Function.update cls (p + 2 ^ c) none) p (some (c + 1)) q = some c' →
      (q = p ∧ c' = c + 1) ∨ (cls q = some c' ∧ q ≠ p ∧ q ≠ p + 2 ^ c ∧ (q + 2 ^ c' ≤ p ∨ p + 2 ^ (c + 1) ≤ q)) := by
    intro q c' hq
    rw [Function.update_apply, Function.update_apply] at hq
    split_ifs at hq with h1 h3
    · injection hq with hq; exact .inl ⟨h1, hq.symm⟩
    · refine .inr ⟨hq, h1, h3, ?_⟩
      rcases Nat.lt_or_ge q p with hlt | hge
      · exact .inl (t.disj hq h hlt)
      · have := t.disj h hq (by omega)
        have := t.disj h' hq (by omega)
        omega
  refine ⟨?_, ?_, ?_, ?_⟩
  · intro q c' hq
    rcases hcase hq with ⟨rfl, rfl⟩ | ⟨hq, -⟩
    · exact hd
    · exact t.dvd hq
  · intro q c' hq
    rcases hcase hq with ⟨rfl, rfl⟩ | ⟨hq, -⟩
    · omega
    · exact t.le hq
  · intro q hq
    obtain ⟨r, c', hr, h3, h4⟩ := t.cover q hq
    by_cases hrp : r = p
    · subst hrp
      rw [h] at hr; injection hr with hr; subst hr
      exact ⟨r, c + 1, Function.update_self .., h3, by omega⟩
    · by_cases hrp' : r = p + 2 ^ c
      · subst hrp'
        rw [h'] at hr; injection hr with hr; subst hr
        exact ⟨p, c + 1, Function.update_self .., by omega, by omega⟩
      · exact ⟨r, c', by rw [Function.update_of_ne hrp, Function.update_of_ne hrp']; exact hr, h3, h4⟩
  · intro q c' q' c'' hq hq' hlt
    have hpos'' : 0 < 2 ^ c'' := by positivity
    rcases hcase hq with ⟨rfl, rfl⟩ | ⟨hq, -, -, hs⟩ <;> rcases hcase hq' with ⟨rfl, rfl⟩ | ⟨hq', -, -, hs'⟩
    any_goals omega
    exact t.disj hq hq' hlt

/-- One block appended. -/
theorem Tiling.extend (t : Tiling cls N) (hN : 2 ^ c ∣ N) :
    Tiling (Function.update cls N (some c)) (N + 2 ^ c) := by
  have hpos : 0 < 2 ^ c := by positivity
  have hcase : ∀ {q c'}, Function.update cls N (some c) q = some c' →
      (q = N ∧ c' = c) ∨ (cls q = some c' ∧ q + 2 ^ c' ≤ N) := by
    intro q c' hq
    rw [Function.update_apply] at hq
    split_ifs at hq with h1
    · injection hq with hq; exact .inl ⟨h1, hq.symm⟩
    · exact .inr ⟨hq, t.le hq⟩
  refine ⟨?_, ?_, ?_, ?_⟩
  · intro q c' hq
    rcases hcase hq with ⟨rfl, rfl⟩ | ⟨hq, -⟩
    · exact hN
    · exact t.dvd hq
  · intro q c' hq
    rcases hcase hq with ⟨rfl, rfl⟩ | ⟨hq, hle⟩ <;> omega
  · intro q hq
    rcases Nat.lt_or_ge q N with hlt | hge
    · obtain ⟨r, c', hr, h3, h4⟩ := t.cover q hlt
      have := t.le hr
      have hpos' : 0 < 2 ^ c' := by positivity
      exact ⟨r, c', by rw [Function.update_of_ne (by omega)]; exact hr, h3, h4⟩
    · exact ⟨N, c, Function.update_self .., hge, hq⟩
  · intro q c' q' c'' hq hq' hlt
    have hpos'' : 0 < 2 ^ c'' := by positivity
    rcases hcase hq with ⟨rfl, rfl⟩ | ⟨hq, hle⟩ <;> rcases hcase hq' with ⟨rfl, rfl⟩ | ⟨hq', hle'⟩
    any_goals omega
    exact t.disj hq hq' hlt

end Dyadic
