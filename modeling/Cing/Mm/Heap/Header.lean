/-
Block headers in the heap's memory: which bytes they occupy, what writing one leaves alone, and the
64-bit arithmetic by which the code finds a block, its size and its buddy.
-/
import Cing.Lib.Dyadic
import Cing.Mm.Heap.Model

namespace Cing.Heap

open Bytes Dyadic

/-! ## Addresses -/

/-- The address of the block that starts at page `p` of the heap. -/
def addr (p : Nat) : Nat := va48Heap + 4096 * p

theorem addr_inj {p q : Nat} (h : addr p = addr q) : p = q := by
  unfold addr at h; omega

theorem addr_ne_zero (p : Nat) : addr p ≠ 0 := by
  have := va48Heap_eq
  unfold addr; omega

theorem addr_align (p : Nat) : mmAlignCheck (addr p) pageSize4K = true := by
  have := va48Heap_eq
  unfold mmAlignCheck addr pageSize4K
  simp only [decide_eq_true_eq]
  omega

/-- The header bytes of the blocks at the pages `S`. -/
def InHeaders (S : Nat → Prop) (a : Nat) : Prop := ∃ p, S p ∧ addr p ≤ a ∧ a < addr p + sizeofBlock

theorem InHeaders.mono {S S' : Nat → Prop} (h : ∀ p, S p → S' p) : ∀ a, InHeaders S a → InHeaders S' a :=
  fun _ ⟨p, hp, h1, h2⟩ => ⟨p, h p hp, h1, h2⟩

/-- Headers of different pages share no byte. -/
theorem not_inHeaders {S : Nat → Prop} {p a : Nat} (hp : ¬ S p) (h1 : addr p ≤ a) (h2 : a < addr p + sizeofBlock) :
    ¬ InHeaders S a := by
  rintro ⟨q, hq, h3, h4⟩
  unfold addr sizeofBlock at *
  obtain rfl : p = q := by omega
  exact hp hq

/-! ## Reading a header after a change elsewhere -/

section Frame

variable {S : Nat → Prop} {m m' : Mem} {p : Nat}

/-- The header of the block at page `p` has the same bytes in both memories. -/
def SameHdr (m m' : Mem) (p : Nat) : Prop := ∀ i < sizeofBlock, m' (addr p + i) = m (addr p + i)

theorem getClass_congr (h : SameHdr m m' p) : getClass m' (addr p) = getClass m (addr p) := by
  have := h 0 (by decide)
  simp only [Nat.add_zero] at this
  simp [getClass, this]

theorem getIsFree_congr (h : SameHdr m m' p) : getIsFree m' (addr p) = getIsFree m (addr p) := by
  simp [getIsFree, h 1 (by decide)]

theorem SameHdr.load (h : SameHdr m m' p) {i n : Nat} (hn : i + n ≤ sizeofBlock) :
    load m' (addr p + i) n = Bytes.load m (addr p + i) n := by
  refine load_congr fun x h1 h2 => ?_
  obtain ⟨j, rfl⟩ := Nat.exists_eq_add_of_le (show addr p ≤ x by omega)
  exact h j (by omega)

theorem getNextFree_congr (h : SameHdr m m' p) : getNextFree m' (addr p) = getNextFree m (addr p) :=
  h.load (by decide)

theorem getMagic_congr (h : SameHdr m m' p) : getMagic m' (addr p) = getMagic m (addr p) :=
  h.load (by decide)

theorem sameHdr (h : SameOff (InHeaders S) m m') (hp : ¬ S p) : SameHdr m m' p :=
  fun _ hi => h _ (not_inHeaders hp (by omega) (by omega))

end Frame

/-! ## Writing one header -/

/-- The memory `_block_init` leaves. -/
def initHdr (m : Mem) (b cls : Nat) (free : Bool) (next : Nat) : Mem :=
  setMagic (setNextFree (setIsFree (setClass m b cls) b free) b next) b blockMagic

section Write

variable (m : Mem) (b : Nat)

theorem initHdr_sameOff (p cls : Nat) (free : Bool) (next : Nat) :
    SameOff (InHeaders (· = p)) m (initHdr m (addr p) cls free next) := by
  have hin : ∀ {x}, addr p ≤ x → x < addr p + 24 → InHeaders (· = p) x := fun h1 h2 => ⟨p, rfl, h1, h2⟩
  refine (((sameOff_put (hin (by omega) (by omega))).trans (sameOff_put (hin (by omega) (by omega)))).trans
    (sameOff_store fun x h1 h2 => hin (by omega) (by omega))).trans
    (sameOff_store fun x h1 h2 => hin (by omega) (by omega))

theorem getClass_initHdr {cls : Nat} (hc : cls < 256) (free : Bool) (next : Nat) :
    getClass (initHdr m b cls free next) b = cls := by
  unfold getClass initHdr setMagic setNextFree setIsFree setClass
  rw [store_outside _ _ _ _ _ (by omega), store_outside _ _ _ _ _ (by omega), put_other (by omega), put_same]
  simp only [UInt8.toNat_ofNat']
  omega

theorem getIsFree_initHdr (cls : Nat) (free : Bool) (next : Nat) :
    getIsFree (initHdr m b cls free next) b = free := by
  unfold getIsFree initHdr setMagic setNextFree setIsFree
  rw [store_outside _ _ _ _ _ (by omega), store_outside _ _ _ _ _ (by omega), put_same]
  cases free <;> simp

theorem getNextFree_initHdr (cls : Nat) (free : Bool) {next : Nat} (hn : next < 2 ^ 64) :
    getNextFree (initHdr m b cls free next) b = next := by
  unfold getNextFree initHdr setMagic setNextFree
  rw [load_store_other (by omega), load_store_same]
  exact Nat.mod_eq_of_lt (by omega)

theorem getMagic_initHdr (cls : Nat) (free : Bool) (next : Nat) :
    getMagic (initHdr m b cls free next) b = blockMagic := by
  unfold getMagic initHdr setMagic
  rw [load_store_same]; rfl

/-- Flipping `is_free` leaves the other fields. -/
theorem setIsFree_sameOff (p : Nat) (f : Bool) : SameOff (InHeaders (· = p)) m (setIsFree m (addr p) f) :=
  sameOff_put ⟨p, rfl, by omega, by unfold sizeofBlock; omega⟩

theorem getIsFree_setIsFree (f : Bool) : getIsFree (setIsFree m b f) b = f := by
  unfold getIsFree setIsFree; rw [put_same]; cases f <;> simp

theorem getClass_setIsFree (f : Bool) : getClass (setIsFree m b f) b = getClass m b := by
  unfold getClass setIsFree; rw [put_other (by omega)]

theorem getNextFree_setIsFree (f : Bool) : getNextFree (setIsFree m b f) b = getNextFree m b :=
  load_put_other (by omega)

theorem getMagic_setIsFree (f : Bool) : getMagic (setIsFree m b f) b = getMagic m b :=
  load_put_other (by omega)

/-- Changing a link leaves the other fields. -/
theorem setNextFree_sameOff (p n : Nat) : SameOff (InHeaders (· = p)) m (setNextFree m (addr p) n) :=
  sameOff_store fun x h1 h2 => ⟨p, rfl, by omega, by unfold sizeofBlock; omega⟩

theorem getNextFree_setNextFree {n : Nat} (hn : n < 2 ^ 64) : getNextFree (setNextFree m b n) b = n := by
  unfold getNextFree setNextFree
  rw [load_store_same]; exact Nat.mod_eq_of_lt (by omega)

theorem getClass_setNextFree (n : Nat) : getClass (setNextFree m b n) b = getClass m b := by
  unfold getClass setNextFree; rw [store_outside _ _ _ _ _ (by omega)]

theorem getIsFree_setNextFree (n : Nat) : getIsFree (setNextFree m b n) b = getIsFree m b := by
  unfold getIsFree setNextFree; rw [store_outside _ _ _ _ _ (by omega)]

theorem getMagic_setNextFree (n : Nat) : getMagic (setNextFree m b n) b = getMagic m b :=
  load_store_other (by omega)

theorem fill_sameOff (p : Nat) : SameOff (InHeaders (· = p)) m (fill m (addr p) 0 sizeofBlock) :=
  sameOff_fill fun _ h1 h2 => ⟨p, rfl, h1, h2⟩

theorem getMagic_fill : getMagic (fill m b 0 sizeofBlock) b = 0 :=
  load_fill_zero (by omega) (by unfold sizeofBlock; omega)

end Write

/-! ## Sizes -/

section Sizes

variable {σ : Type} (dbg : Bool)

theorem size_lt {c : Nat} (hc : c < blockMaxClass) : 2 ^ c * 4096 ≤ 2 ^ 27 := by
  have : 2 ^ c ≤ 2 ^ 15 := Nat.pow_le_pow_right (by omega) (by unfold blockMaxClass at hc; omega)
  omega

theorem sizeOfClass_run {c : Nat} (hc : c < blockMaxClass) (s : HeapState σ) :
    sizeOfClass dbg c s = .ok (2 ^ c * 4096) s := by
  have hle := size_lt hc
  unfold sizeOfClass
  rw [Exec.bind_ok (kernelAssertD_pos hc dbg _ s), utilMath2Exp_of_lt (by unfold blockMaxClass at hc; omega),
    show pageSize4K = 4096 from rfl, u64_of_lt (by omega)]
  rfl

/-- The class chosen for a request holds it, and the class below does not. -/
theorem freeClassOf_spec {len : Nat} (h0 : 0 < len) (h : len + sizeofBlock ≤ 2 ^ 27) :
    freeClassOf len < blockMaxClass ∧ len + sizeofBlock ≤ 2 ^ freeClassOf len * 4096 ∧
      ∀ c < freeClassOf len, 2 ^ c * 4096 < len + sizeofBlock := by
  unfold sizeofBlock at *
  obtain ⟨h1, h2⟩ := utilMathLog2Up_spec (show 2 ≤ len + 24 by omega) (by omega)
  set x := utilMathLog2Up (len + 24) with hx
  have hx27 : x ≤ 27 := by
    by_contra hc
    have : 2 ^ 27 ≤ 2 ^ (x - 1) := Nat.pow_le_pow_right (by omega) (by omega)
    omega
  have hcls : freeClassOf len = if x ≤ 12 then 0 else x - 12 := by
    unfold freeClassOf sizeofBlock pageSizeLog4K
    rw [u64_of_lt (by omega), ← hx, Nat.mod_eq_of_lt (by omega)]
  rw [hcls]
  unfold blockMaxClass
  by_cases h12 : x ≤ 12
  · rw [if_pos h12]
    have : 2 ^ x ≤ 2 ^ 12 := Nat.pow_le_pow_right (by omega) h12
    exact ⟨by omega, by omega, fun c hc => by omega⟩
  · rw [if_neg h12]
    have hsplit : 2 ^ x = 2 ^ (x - 12) * 4096 := by
      rw [show (4096 : Nat) = 2 ^ 12 from rfl, ← pow_add]; congr 1; omega
    refine ⟨by omega, by omega, fun c hc => ?_⟩
    have h3 : 2 ^ c * 4096 = 2 ^ (c + 12) := by rw [pow_add]; norm_num
    have h4 : 2 ^ (c + 12) ≤ 2 ^ (x - 1) := Nat.pow_le_pow_right (by omega) (by omega)
    omega

end Sizes

/-! ## The buddy's offset -/

/-- Subtracting one block size from an offset inside the top-class block, as the code does on 64-bit
words: an even number of blocks never leaves a multiple of two blocks (not even at offset 0, where the
subtraction wraps), an odd number always does. -/
theorem buddy_offset {c k : Nat} (hc : c < 15) (hk : 2 ^ c * 4096 * k < 2 ^ 64) :
    (mmAlignCheck (u64Sub (2 ^ c * 4096 * k) (2 ^ c * 4096)) (u64 (2 ^ c * 4096 * 2)) = true ↔ k % 2 = 1) ∧
    (k % 2 = 0 → mmAlignCheck (2 ^ c * 4096 * k) (u64 (2 ^ c * 4096 * 2)) = true) := by
  have hS : 0 < 2 ^ c * 4096 := by positivity
  have hle : 2 ^ c ≤ 2 ^ 14 := Nat.pow_le_pow_right (by omega) (by omega)
  obtain ⟨T, hT⟩ : ∃ T, 2 ^ 64 = 2 ^ c * 4096 * (2 * T) := by
    refine ⟨2 ^ (51 - c), ?_⟩
    rw [show (4096 : Nat) = 2 ^ 12 by norm_num, ← pow_succ', ← pow_add, ← pow_add]
    congr 1; omega
  have hT0 : 0 < T := by
    rcases Nat.eq_zero_or_pos T with rfl | h
    · simp at hT
    · exact h
  have hmod : ∀ j, 2 ^ c * 4096 * j % (2 ^ c * 4096 * 2) = 2 ^ c * 4096 * (j % 2) := fun j =>
    Nat.mul_mod_mul_left ..
  unfold mmAlignCheck
  rw [u64_of_lt (by omega)]
  simp only [decide_eq_true_eq]
  constructor
  · rcases Nat.eq_zero_or_pos k with rfl | hk0
    · have : u64Sub (2 ^ c * 4096 * 0) (2 ^ c * 4096) = 2 ^ c * 4096 * (2 * T - 1) := by
        unfold u64Sub
        rw [Nat.mul_zero, Nat.zero_add, Nat.mod_eq_of_lt (by omega), hT, Nat.mul_sub, Nat.mul_one]
      rw [this, hmod, show (2 * T - 1) % 2 = 1 by omega]
      omega
    · obtain ⟨j, rfl⟩ : ∃ j, k = j + 1 := ⟨k - 1, by omega⟩
      have hexp : 2 ^ c * 4096 * (j + 1) = 2 ^ c * 4096 * j + 2 ^ c * 4096 := Nat.mul_succ ..
      rw [u64Sub_of_le (by omega) hk, hexp, Nat.add_sub_cancel, hmod]
      rcases Nat.mod_two_eq_zero_or_one j with hj | hj
      · simp [hj]; omega
      · rw [hj, Nat.mul_one]; omega
  · intro hk2
    rw [hmod, hk2, Nat.mul_zero]

/-- The offset of a block inside the top-class block around it. -/
theorem block_offset {p c : Nat} (hp : 2 ^ c ∣ p) (hc : c < 15) :
    ∃ k, 4096 * (p % 2 ^ 15) = 2 ^ c * 4096 * k ∧ (k % 2 = p / 2 ^ c % 2) := by
  obtain ⟨n, rfl⟩ := hp
  have hpos : 0 < 2 ^ c := by positivity
  have h15 : 2 ^ 15 = 2 ^ c * (2 * 2 ^ (14 - c)) := by
    rw [← pow_succ', ← pow_add]; congr 1; omega
  refine ⟨n % (2 * 2 ^ (14 - c)), ?_, ?_⟩
  · rw [h15, Nat.mul_mod_mul_left]; ring
  · rw [Nat.mod_mul_right_mod, Nat.mul_div_cancel_left _ hpos]

end Cing.Heap
