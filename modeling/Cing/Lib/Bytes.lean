/-
Byte-addressed memory with little-endian words: what a store writes, what a load reads back, and
that neither looks outside its own range.
-/
import Mathlib.Tactic

namespace Bytes

/-- A memory: the byte at each address. -/
abbrev Mem := Nat → UInt8

/-- The byte `b` written at `a`. -/
def put (m : Mem) (a : Nat) (b : UInt8) : Mem := fun x => if x = a then b else m x

/-- The little-endian number in the `n` bytes from `a`. -/
def load (m : Mem) : Nat → Nat → Nat
  | _, 0 => 0
  | a, n + 1 => (m a).toNat + 256 * load m (a + 1) n

/-- The low `n` bytes of `v` written from `a` on. -/
def store (m : Mem) : Nat → Nat → Nat → Mem
  | _, 0, _ => m
  | a, n + 1, v => store (put m a (UInt8.ofNat v)) (a + 1) n (v / 256)

/-- The `n` bytes from `a` set to `b`, in ascending order. -/
def fill (m : Mem) (a : Nat) (b : UInt8) : Nat → Mem
  | 0 => m
  | n + 1 => put (fill m a b n) (a + n) b

/-- The bytes of `l` written from `a` on. -/
def splice (m : Mem) (a : Nat) (l : List UInt8) : Mem := fun x => if x < a then m x else l[x - a]?.getD (m x)

/-! ## Single bytes -/

@[simp] theorem put_same (m : Mem) (a : Nat) (b : UInt8) : put m a b a = b := by simp [put]

theorem put_other {m : Mem} {a x : Nat} {b : UInt8} (h : x ≠ a) : put m a b x = m x := by simp [put, h]

theorem fill_apply (m : Mem) (a : Nat) (b : UInt8) (n x : Nat) :
    fill m a b n x = if a ≤ x ∧ x < a + n then b else m x := by
  induction n with
  | zero => rw [if_neg (by omega)]; rfl
  | succ n ih =>
    by_cases hx : x = a + n
    · rw [if_pos (by omega), hx]; simp [fill]
    · rw [show fill m a b (n + 1) x = fill m a b n x from put_other hx, ih]
      by_cases h : a ≤ x ∧ x < a + n
      · rw [if_pos h, if_pos (by omega)]
      · rw [if_neg h, if_neg (by omega)]

/-! ## Rows of bytes -/

@[simp] theorem splice_nil (m : Mem) (a : Nat) : splice m a [] = m := by
  funext x
  simp [splice]

theorem splice_outside {m : Mem} {a x : Nat} {l : List UInt8} (h : x < a ∨ a + l.length ≤ x) : splice m a l x = m x := by
  unfold splice
  split
  · rfl
  · rw [List.getElem?_eq_none (by omega)]
    rfl

theorem splice_inside {m : Mem} {a i : Nat} {l : List UInt8} (h : i < l.length) : splice m a l (a + i) = l[i] := by
  unfold splice
  rw [if_neg (by omega), Nat.add_sub_cancel_left, List.getElem?_eq_getElem h]
  rfl

/-- A row behind another. -/
theorem splice_splice (m : Mem) (a : Nat) (l l' : List UInt8) :
    splice (splice m a l) (a + l.length) l' = splice m a (l ++ l') := by
  funext x
  unfold splice
  by_cases h1 : x < a
  · rw [if_pos (by omega), if_pos h1, if_pos h1]
  · by_cases h2 : x < a + l.length
    · rw [if_pos h2, if_neg h1, if_neg h1, List.getElem?_append_left (by omega)]
    · rw [if_neg h2, if_neg h1, if_neg h1, List.getElem?_append_right (by omega),
        List.getElem?_eq_none (l := l) (by omega), Nat.sub_sub]
      rfl

theorem splice_one (m : Mem) (a : Nat) (b : UInt8) : splice m a [b] = put m a b := by
  funext x
  by_cases hx : x = a
  · rw [hx, put_same]
    exact splice_inside (l := [b]) (i := 0) Nat.one_pos
  · rw [put_other hx, splice_outside (by rw [List.length_singleton]; omega)]

/-- A byte behind a row. -/
theorem put_splice (m : Mem) (a : Nat) (l : List UInt8) (b : UInt8) :
    put (splice m a l) (a + l.length) b = splice m a (l ++ [b]) := by
  rw [← splice_one, splice_splice]

/-- A row in front of a byte. -/
theorem splice_put (m : Mem) (a : Nat) (l : List UInt8) (b : UInt8) :
    splice (put m (a + l.length) b) a l = splice m a (l ++ [b]) := by
  funext x
  rw [← put_splice]
  by_cases hx : x = a + l.length
  · rw [hx, put_same, splice_outside (.inr le_rfl), put_same]
  · rw [put_other hx]
    unfold splice
    rw [put_other hx]

/-! ## Words -/

theorem load_lt (m : Mem) : ∀ a n, load m a n < 256 ^ n
  | _, 0 => by simp [load]
  | a, n + 1 => by
    have h1 := load_lt m (a + 1) n
    have h2 := (m a).toNat_lt
    simp only [load, pow_succ]
    omega

theorem load_congr {m m' : Mem} : ∀ {a n}, (∀ x, a ≤ x → x < a + n → m x = m' x) → load m a n = load m' a n
  | _, 0, _ => rfl
  | a, n + 1, h => by
    simp only [load]
    rw [h a (by omega) (by omega), load_congr (a := a + 1) (n := n) fun x h1 h2 => h x (by omega) (by omega)]

theorem store_outside (m : Mem) : ∀ (a n v x : Nat), x < a ∨ a + n ≤ x → store m a n v x = m x
  | _, 0, _, _, _ => rfl
  | a, n + 1, v, x, h => by
    simp only [store]
    rw [store_outside _ (a + 1) n (v / 256) x (by omega), put_other (by omega)]

theorem load_store_same (m : Mem) : ∀ (a n v : Nat), load (store m a n v) a n = v % 256 ^ n
  | _, 0, v => by simp [load, Nat.mod_one]
  | a, n + 1, v => by
    have hb : store (put m a (UInt8.ofNat v)) (a + 1) n (v / 256) a = UInt8.ofNat v := by
      rw [store_outside _ _ _ _ _ (by omega), put_same]
    simp only [load, store]
    rw [hb, load_store_same _ (a + 1) n (v / 256), pow_succ, mul_comm (256 ^ n) 256, Nat.mod_mul]
    simp

/-- A store leaves every word that does not overlap it. -/
theorem load_store_other {m : Mem} {a n v b k : Nat} (h : b + k ≤ a ∨ a + n ≤ b) :
    load (store m a n v) b k = load m b k :=
  load_congr fun x h1 h2 => store_outside m a n v x (by omega)

theorem load_put_other {m : Mem} {a b k : Nat} {v : UInt8} (h : b + k ≤ a ∨ a < b) :
    load (put m a v) b k = load m b k :=
  load_congr fun x h1 h2 => put_other (by omega)

/-- A word inside a range of zeros. -/
theorem load_fill_zero {m : Mem} {a n : Nat} : ∀ {b k : Nat}, a ≤ b → b + k ≤ a + n → load (fill m a 0 n) b k = 0
  | _, 0, _, _ => rfl
  | b, k + 1, h1, h2 => by
    simp only [load]
    rw [fill_apply, if_pos ⟨h1, by omega⟩, load_fill_zero (by omega) (by omega)]
    rfl

/-! ## Rows in memory -/

/-- The bytes of `l` are in memory from `a` on. -/
def Row (m : Mem) (a : Nat) (l : List UInt8) : Prop := ∀ i (h : i < l.length), m (a + i) = l[i]

/-- The little-endian bytes of the low `n` bytes of `v`. -/
def leBytes : Nat → Nat → List UInt8
  | 0, _ => []
  | n + 1, v => UInt8.ofNat v :: leBytes n (v / 256)

@[simp] theorem leBytes_length : ∀ n v, (leBytes n v).length = n
  | 0, _ => rfl
  | n + 1, v => by rw [leBytes, List.length_cons, leBytes_length n]

theorem row_cons {m : Mem} {a : Nat} {b : UInt8} {l : List UInt8} : Row m a (b :: l) ↔ m a = b ∧ Row m (a + 1) l := by
  constructor
  · intro h
    refine ⟨h 0 (by simp), fun i hi => ?_⟩
    have hnext := h (i + 1) (by simpa using hi)
    rwa [List.getElem_cons_succ, show a + (i + 1) = a + 1 + i by omega] at hnext
  · rintro ⟨hb, hl⟩ i hi
    cases i with
    | zero => exact hb
    | succ i =>
      rw [List.getElem_cons_succ, show a + (i + 1) = a + 1 + i by omega]
      exact hl i (by simpa using hi)

theorem row_append {m : Mem} {a : Nat} {l l' : List UInt8} : Row m a (l ++ l') ↔ Row m a l ∧ Row m (a + l.length) l' := by
  induction l generalizing a with
  | nil => exact ⟨fun h => ⟨nofun, h⟩, fun h => h.2⟩
  | cons b l ih => rw [List.cons_append, row_cons, row_cons, ih, List.length_cons, and_assoc,
      show a + (l.length + 1) = a + 1 + l.length by omega]

theorem Row.congr {m m' : Mem} {a a' : Nat} {l : List UInt8} (h : Row m a l)
    (hm : ∀ i < l.length, m' (a' + i) = m (a + i)) : Row m' a' l :=
  fun i hi => (hm i hi).trans (h i hi)

/-- A word of a row is read as it was laid out. -/
theorem Row.load {m : Mem} : ∀ {a n v : Nat}, Row m a (leBytes n v) → load m a n = v % 256 ^ n
  | _, 0, v, _ => by rw [Bytes.load, pow_zero, Nat.mod_one]
  | a, n + 1, v, h => by
    obtain ⟨hb, hl⟩ := row_cons.1 h
    rw [Bytes.load, hb, hl.load, pow_succ, mul_comm (256 ^ n) 256, Nat.mod_mul, UInt8.toNat_ofNat']

theorem row_splice (m : Mem) (a : Nat) (l : List UInt8) : Row (splice m a l) a l := fun _ hi => splice_inside hi

/-! ## Frames -/

/-- `m'` differs from `m` only at addresses in `W`. -/
def SameOff (W : Nat → Prop) (m m' : Mem) : Prop := ∀ x, ¬ W x → m' x = m x

theorem SameOff.refl (W : Nat → Prop) (m : Mem) : SameOff W m m := fun _ _ => rfl

theorem SameOff.trans {W : Nat → Prop} {m m' m'' : Mem} (h1 : SameOff W m m') (h2 : SameOff W m' m'') :
    SameOff W m m'' := fun x hx => (h2 x hx).trans (h1 x hx)

theorem SameOff.mono {W W' : Nat → Prop} {m m' : Mem} (h : SameOff W m m') (hW : ∀ x, W x → W' x) :
    SameOff W' m m' := fun x hx => h x fun hw => hx (hW x hw)

theorem sameOff_store {W : Nat → Prop} {m : Mem} {a n v : Nat} (h : ∀ x, a ≤ x → x < a + n → W x) :
    SameOff W m (store m a n v) := fun x hx =>
  store_outside m a n v x (by by_contra hc; exact hx (h x (by omega) (by omega)))

theorem sameOff_put {W : Nat → Prop} {m : Mem} {a : Nat} {b : UInt8} (h : W a) : SameOff W m (put m a b) :=
  fun _ hx => put_other fun hxa => hx (hxa ▸ h)

theorem sameOff_fill {W : Nat → Prop} {m : Mem} {a n : Nat} {b : UInt8} (h : ∀ x, a ≤ x → x < a + n → W x) :
    SameOff W m (fill m a b n) := fun x hx => by
  rw [fill_apply, if_neg fun hc => hx (h x hc.1 hc.2)]

end Bytes
