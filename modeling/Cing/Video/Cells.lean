/-
video.c on drivers_vesa.c: where a character lands in the frame buffer. Rows and columns are counted with truncating divisions, so
the cells of 8 by 16 pixels are all inside the buffer and apart, whatever is left over at the right and at the bottom.
-/
import Cing.Log.Model

namespace Cing.Log

/-- `d_vesa_get_frame_buffer_len`. -/
def dVesaGetFrameBufferLen (s : LogState) : Nat := u64 (u64 (s.width * s.height) * s.depth)

/-! ## What is to be painted -/

/-- The three colour bytes of a pixel, as indices into the frame buffer. The fourth byte of a pixel is not used. -/
def PixelByte (width x y i : Nat) : Prop := ∃ k < 3, i = (y * width + x) * 4 + k

/-- A pixel of a character whose bit in the font is set. -/
def FontBit (font : Nat → UInt8) (ch : UInt8) (ln bit : Nat) : Prop :=
  (font (ch.toNat * 16 + ln)).toNat.testBit (8 - bit - 1) = true

/-- The colour bytes of the pixels of a cell that a character sets. -/
def CellByte (font : Nat → UInt8) (width row col : Nat) (ch : UInt8) (i : Nat) : Prop :=
  ∃ ln < 16, ∃ bit < 8, FontBit font ch ln bit ∧ PixelByte width (col * 8 + bit) (row * 16 + ln) i

/-- The bytes at some indices from `buf` on are white now, and no others changed. -/
structure Painted (buf : Nat) (P : Nat → Prop) (m v : Bytes.Mem) : Prop where
  white : ∀ i, P i → v (u64 (buf + i)) = 255
  others : ∀ x, (∀ i, P i → x ≠ u64 (buf + i)) → v x = m x

namespace Painted

variable {buf : Nat} {P Q R : Nat → Prop} {m v w : Bytes.Mem}

theorem refl (buf : Nat) (m : Bytes.Mem) (h : ∀ i, ¬ P i) : Painted buf P m m := ⟨fun i hi => absurd hi (h i), fun _ _ => rfl⟩

theorem trans (h : Painted buf P m v) (h' : Painted buf Q v w) (hR : ∀ i, R i ↔ P i ∨ Q i) : Painted buf R m w := by
  refine ⟨fun i hi => ?_, fun x hx => ?_⟩
  · by_cases hq : ∃ j, Q j ∧ u64 (buf + i) = u64 (buf + j)
    · obtain ⟨j, hj, he⟩ := hq
      rw [he]
      exact h'.white j hj
    · -- painted before, and not painted over
      rw [h'.others _ fun j hj he => hq ⟨j, hj, he⟩]
      rcases (hR i).1 hi with hp | hi
      · exact h.white i hp
      · exact absurd ⟨i, hi, rfl⟩ hq
  · rw [h'.others x fun i hi => hx i ((hR i).2 (.inr hi)), h.others x fun i hi => hx i ((hR i).2 (.inl hi))]

theorem put (buf i : Nat) (m : Bytes.Mem) : Painted buf (· = i) m (Bytes.put m (u64 (buf + i)) 255) := by
  refine ⟨?_, fun x hx => Bytes.put_other (hx i rfl)⟩
  rintro _ rfl
  exact Bytes.put_same ..

end Painted

/-! ## Painting -/

variable {s : LogState} {row col n : Nat} (font : Nat → UInt8) (ch : UInt8)

/-- A pixel on the screen has an index that no word of the code wraps. -/
theorem pixel_index {x y : Nat} (hx : x < s.width) (hy : y < s.height) :
    (y * s.width + x) * 4 + 4 ≤ s.width * s.height * 4 := by
  have hrow : (y + 1) * s.width ≤ s.width * s.height := by
    rw [Nat.mul_comm s.width]
    exact Nat.mul_le_mul_right _ hy
  rw [Nat.succ_mul] at hrow
  omega

theorem dVesaDrawPixel_paints {x y : Nat} (hlen : s.width * s.height * 4 < 2 ^ 64) (hdepth : s.depth = 4) (hx : x < s.width)
    (hy : y < s.height) : ∃ v, dVesaDrawPixel x y 255 255 255 s = .ok () { s with video := v } ∧
      Painted s.buf (PixelByte s.width x y) s.video v := by
  have hidx := pixel_index hx hy
  have hwrap : u64 (u64 (y * s.width + x) * s.depth) = (y * s.width + x) * 4 := by
    rw [hdepth, u64_of_lt (by omega : y * s.width + x < 2 ^ 64), u64_of_lt (by omega)]
  unfold dVesaDrawPixel
  rw [Exec.bind_ok (Exec.get_run s), Exec.bind_ok (kernelAssert_pos hx _ s), Exec.bind_ok (kernelAssert_pos hy _ s), hwrap]
  refine ⟨_, rfl, ((Painted.put s.buf _ _).trans (Painted.put s.buf _ _) fun _ => Iff.rfl).trans
    (Painted.put s.buf _ _) fun i => ?_⟩
  unfold PixelByte
  constructor
  · rintro ⟨k, hk, rfl⟩
    omega
  · rintro ((rfl | rfl) | rfl)
    · exact ⟨0, by omega, rfl⟩
    · exact ⟨1, by omega, rfl⟩
    · exact ⟨2, by omega, rfl⟩

/-- The pixels of a line of the character. -/
theorem pixelLoop_paints {ln : Nat} (hlen : s.width * s.height * 4 < 2 ^ 64) (hdepth : s.depth = 4) (hcol : col < videoCharColMax s)
    (hy : row * 16 + ln < s.height) (hn : n ≤ 8) : ∃ v, pixelLoop font row col ch ln n s = .ok () { s with video := v } ∧
      Painted s.buf (fun i => ∃ bit < n, FontBit font ch ln bit ∧
          PixelByte s.width (col * 8 + bit) (row * 16 + ln) i) s.video v := by
  unfold videoCharColMax at hcol
  induction n with
  | zero => exact ⟨s.video, rfl, .refl _ _ fun i ⟨_, h, _⟩ => absurd h (Nat.not_lt_zero _)⟩
  | succ n ih =>
    obtain ⟨v, hrun, hp⟩ := ih (by omega)
    have hx : col * 8 + n < s.width := by omega
    rw [pixelLoop, Exec.bind_ok hrun]
    by_cases hbit : (font (ch.toNat * 16 + ln)).toNat.testBit (8 - n - 1) = true
    · obtain ⟨w, hpixel, hp'⟩ := dVesaDrawPixel_paints (s := { s with video := v }) hlen hdepth hx hy
      rw [if_pos hbit]
      refine ⟨w, hpixel, hp.trans hp' fun i => ?_⟩
      constructor
      · rintro ⟨bit, hlt, hb, hi⟩
        rcases Nat.lt_succ_iff_lt_or_eq.1 hlt with hlt | rfl
        · exact .inl ⟨bit, hlt, hb, hi⟩
        · exact .inr hi
      · rintro (⟨bit, hlt, hb, hi⟩ | hi)
        · exact ⟨bit, by omega, hb, hi⟩
        · exact ⟨n, by omega, hbit, hi⟩
    · rw [if_neg hbit]
      refine ⟨v, rfl, hp.trans (.refl (P := fun _ => False) _ _ fun _ => id) fun i => ?_⟩
      constructor
      · rintro ⟨bit, hlt, hb, hi⟩
        rcases Nat.lt_succ_iff_lt_or_eq.1 hlt with hlt | rfl
        · exact .inl ⟨bit, hlt, hb, hi⟩
        · exact absurd hb hbit
      · rintro (⟨bit, hlt, hb, hi⟩ | hi)
        · exact ⟨bit, by omega, hb, hi⟩
        · exact hi.elim

theorem lineLoop_paints (hlen : s.width * s.height * 4 < 2 ^ 64) (hdepth : s.depth = 4) (hrow : row < videoCharRowMax s)
    (hcol : col < videoCharColMax s) (hn : n ≤ 16) : ∃ v, lineLoop font row col ch n s = .ok () { s with video := v } ∧
      Painted s.buf (fun i => ∃ ln < n, ∃ bit < 8, FontBit font ch ln bit ∧
          PixelByte s.width (col * 8 + bit) (row * 16 + ln) i) s.video v := by
  have hrow' : row * 16 + 16 ≤ s.height := by
    unfold videoCharRowMax at hrow
    omega
  induction n with
  | zero => exact ⟨s.video, rfl, .refl _ _ fun i ⟨_, h, _⟩ => absurd h (Nat.not_lt_zero _)⟩
  | succ n ih =>
    obtain ⟨v, hrun, hp⟩ := ih (by omega)
    obtain ⟨w, hline, hp'⟩ := pixelLoop_paints (s := { s with video := v }) font ch hlen hdepth hcol
      (by omega : row * 16 + n < s.height) le_rfl
    rw [lineLoop, Exec.bind_ok hrun]
    refine ⟨w, hline, hp.trans hp' fun i => ?_⟩
    constructor
    · rintro ⟨ln, hlt, h⟩
      rcases Nat.lt_succ_iff_lt_or_eq.1 hlt with hlt | rfl
      · exact .inl ⟨ln, hlt, h⟩
      · exact .inr h
    · rintro (⟨ln, hlt, h⟩ | h)
      · exact ⟨ln, by omega, h⟩
      · exact ⟨n, by omega, h⟩

/-! ## Cells -/

/-- The pixel that a byte is of. -/
theorem PixelByte.pixel {width x y i : Nat} (h : PixelByte width x y i) (hx : x < width) : x = i / 4 % width ∧
    y = i / 4 / width := by
  obtain ⟨k, hk, rfl⟩ := h
  have hdiv : ((y * width + x) * 4 + k) / 4 = y * width + x := by omega
  rw [hdiv, Nat.mul_comm, Nat.mul_add_mod, Nat.mod_eq_of_lt hx, Nat.mul_add_div (by omega), Nat.div_eq_of_lt hx]
  exact ⟨rfl, rfl⟩

/-- The cell that a byte is of. -/
theorem CellByte.cell {font : Nat → UInt8} {ch : UInt8} {width i : Nat} (h : CellByte font width row col ch i)
    (hcol : col < width / 8) : row = i / 4 / width / 16 ∧ col = i / 4 % width / 8 := by
  obtain ⟨ln, hln, bit, hbit, -, hpixel⟩ := h
  obtain ⟨hx, hy⟩ := hpixel.pixel (by omega)
  omega

theorem CellByte.lt {font : Nat → UInt8} {ch : UInt8} (hrow : row < videoCharRowMax s) (hcol : col < videoCharColMax s) {i : Nat}
    (h : CellByte font s.width row col ch i) : i < s.width * s.height * 4 := by
  obtain ⟨ln, hln, bit, hbit, -, k, hk, rfl⟩ := h
  unfold videoCharRowMax at hrow
  unfold videoCharColMax at hcol
  have hidx := pixel_index (by omega : col * 8 + bit < s.width) (by omega : row * 16 + ln < s.height)
  omega

/-- A character in a cell of the screen is drawn: the colour bytes of its pixels are white then, all of them in the frame buffer, no
other byte changed, and none of them is one that a character in another cell may write. -/
theorem char_cell_exact (hlen : s.width * s.height * 4 < 2 ^ 64) (hdepth : s.depth = 4) (hrow : row < videoCharRowMax s)
    (hcol : col < videoCharColMax s) :
    ∃ v, videoDrawChar font row col ch s =
        .ok () { s with video := v, draws := ⟨row, col, videoCharRowMax s, videoCharColMax s⟩ :: s.draws } ∧
      Painted s.buf (CellByte font s.width row col ch) s.video v ∧
      (∀ i, CellByte font s.width row col ch i → i < dVesaGetFrameBufferLen s) ∧
      ∀ row' < videoCharRowMax s, ∀ col' < videoCharColMax s, ∀ ch' i i', CellByte font s.width row col ch i →
        CellByte font s.width row' col' ch' i' → u64 (s.buf + i) = u64 (s.buf + i') → row' = row ∧ col' = col := by
  have hbuf : dVesaGetFrameBufferLen s = s.width * s.height * 4 := by
    unfold dVesaGetFrameBufferLen
    rw [hdepth, u64_of_lt (by omega : s.width * s.height < 2 ^ 64), u64_of_lt hlen]
  obtain ⟨v, hrun, hp⟩ := lineLoop_paints (s := { s with draws := ⟨row, col, videoCharRowMax s, videoCharColMax s⟩ :: s.draws })
    font ch hlen hdepth hrow hcol le_rfl
  refine ⟨v, ?_, hp, fun i hi => hbuf ▸ hi.lt hrow hcol, ?_⟩
  · unfold videoDrawChar
    rw [Exec.bind_ok (Exec.get_run s), Exec.bind_ok (Exec.set_run s _), Exec.bind_ok (kernelAssert_pos hrow _ _),
      Exec.bind_ok (kernelAssert_pos hcol _ _)]
    exact hrun
  · intro row' hrow' col' hcol' ch' i i' hi hi' he
    have hlt := hi.lt hrow hcol
    have hlt' := hi'.lt hrow' hcol'
    obtain rfl : i = i' := by
      unfold u64 at he
      omega
    obtain ⟨hr, hc⟩ := hi.cell hcol
    obtain ⟨hr', hc'⟩ := hi'.cell hcol'
    exact ⟨hr'.trans hr.symm, hc'.trans hc.symm⟩

/-- A screen of 20 by 33 pixels, which has two cells in each of its two rows. -/
def smallScreen : LogState := ⟨0, 0, true, 0xFD000000, 20, 33, 4, fun _ => 0, [], []⟩

/-- The lower right cell, with a character that sets all of its pixels. -/
theorem char_cell_exact_small :
    ∃ v, videoDrawChar (fun _ => 255) 1 1 65 smallScreen = .ok () { smallScreen with video := v, draws := [⟨1, 1, 2, 2⟩] } ∧
    v (u64 (0xFD000000 + (31 * 20 + 15) * 4 + 2)) = 255 := by
  obtain ⟨v, hrun, hp, -, -⟩ :=
    char_cell_exact (fun _ => 255) 65 (by decide : smallScreen.width * smallScreen.height * 4 < 2 ^ 64) rfl
    (by decide : 1 < videoCharRowMax smallScreen) (by decide : 1 < videoCharColMax smallScreen)
  exact ⟨v, hrun, hp.white _ ⟨15, by decide, 7, by decide, (by decide : (255 : Nat).testBit 0 = true), 2, by decide, rfl⟩⟩

end Cing.Log
