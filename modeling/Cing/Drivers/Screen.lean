/-
drivers_screen.c: the text buffer of the screen, 25 rows of 80 cells, each a character and a byte of colours. Every access goes
through `_offset_of_char`, which asserts that the cell is on the screen; what is drawn into an area changes no byte of a cell
outside it.
-/
import Cing.Kernel.Panic
import Cing.Lib.Bytes
import Cing.Containers.String

namespace Cing

/-- Code on the text buffer, by offset from `_video_buffer`. -/
abbrev ScreenM := EStateM Stop Bytes.Mem

namespace Screen

/-! ## The code -/

/-- `SCREEN_WIDTH`. -/
def screenWidth : Nat := 80

/-- `SCREEN_HEIGHT`. -/
def screenHeight : Nat := 25

/-- `_offset_max`. -/
def offsetMax : Nat := 2 * screenWidth * screenHeight

/-- `_offset_of_char`. -/
def offsetOfChar (row col : Nat) : ScreenM Nat := do
  kernelAssert (row < screenHeight) "row < SCREEN_HEIGHT"
  kernelAssert (col < screenWidth) "col < SCREEN_WIDTH"
  let offset := 2 * (row * screenWidth + col)
  kernelAssert (offset + 1 < offsetMax) "(offset + 1) < _offset_max()"
  return offset

/-- `_offset_of_attr`. -/
def offsetOfAttr (row col : Nat) : ScreenM Nat := do
  let offset ← offsetOfChar row col
  return offset + 1

/-- `screen_set_fg_at`. -/
def screenSetFgAt (fg : UInt8) (row col : Nat) : ScreenM Unit := do
  let offset ← offsetOfAttr row col
  modify fun b => Bytes.put b offset ((b offset &&& 0xf0) ||| fg)

/-- `screen_write_at`. -/
def screenWriteAt (c : UInt8) (row col : Nat) : ScreenM Unit := do
  let offset ← offsetOfChar row col
  modify fun b => Bytes.put b offset c

/-- `screen_box_thin_border_v_at`. -/
def screenBoxThinBorderVAt (row col : Nat) : ScreenM Unit := screenWriteAt 179 row col

/-- `screen_box_thin_border_h_at`. -/
def screenBoxThinBorderHAt (row col : Nat) : ScreenM Unit := screenWriteAt 196 row col

/-- `screen_box_thin_corner_ne_at`. -/
def screenBoxThinCornerNeAt (row col : Nat) : ScreenM Unit := screenWriteAt 191 row col

/-- `screen_box_thin_corner_sw_at`. -/
def screenBoxThinCornerSwAt (row col : Nat) : ScreenM Unit := screenWriteAt 192 row col

/-- `screen_box_thin_corner_se_at`. -/
def screenBoxThinCornerSeAt (row col : Nat) : ScreenM Unit := screenWriteAt 217 row col

/-- `screen_box_thin_corner_nw_at`. -/
def screenBoxThinCornerNwAt (row col : Nat) : ScreenM Unit := screenWriteAt 218 row col

/-- The loop of `screen_write_str`, at most `n` rounds. A row has 80 cells. -/
def screenWriteStrLoop (str : List UInt8) (row col : Nat) : Nat → Nat → ScreenM Unit
  | 0, _ => pure ()
  | n + 1, i =>
    if i + col < screenWidth then
      if Str.charAt str i = 0 then pure ()
      else do
        screenWriteAt (Str.charAt str i) row (i + col)
        screenWriteStrLoop str row col n (i + 1)
    else pure ()

/-- `screen_write_str`. The colours are not used. -/
def screenWriteStr (str : CStr) (row col : Nat) : ScreenM Unit := screenWriteStrLoop str.chars row col screenWidth 0

/-! ## Cells -/

/-- The offset of a cell. -/
def cell (row col : Nat) : Nat := 2 * (row * screenWidth + col)

variable {row col row' col' : Nat}

theorem cell_inj (hcol : col < screenWidth) (hcol' : col' < screenWidth) (h : cell row col = cell row' col') :
    row = row' ∧ col = col' := by
  unfold cell screenWidth at *
  omega

theorem cell_ne_attr : cell row col ≠ cell row' col' + 1 := by
  unfold cell
  omega

theorem offsetOfChar_run (hrow : row < screenHeight) (hcol : col < screenWidth) (b : Bytes.Mem) :
    offsetOfChar row col b = .ok (cell row col) b := by
  have hmax : 2 * (row * screenWidth + col) + 1 < offsetMax := by
    unfold offsetMax screenHeight screenWidth at *
    omega
  unfold offsetOfChar
  rw [Exec.bind_ok (kernelAssert_pos hrow _ b), Exec.bind_ok (kernelAssert_pos hcol _ b), Exec.bind_ok (kernelAssert_pos hmax _ b)]
  rfl

theorem screenWriteAt_run (c : UInt8) (hrow : row < screenHeight) (hcol : col < screenWidth) (b : Bytes.Mem) :
    screenWriteAt c row col b = .ok () (Bytes.put b (cell row col) c) := by
  unfold screenWriteAt
  rw [Exec.bind_ok (offsetOfChar_run hrow hcol b)]
  rfl

theorem screenSetFgAt_run (fg : UInt8) (hrow : row < screenHeight) (hcol : col < screenWidth) (b : Bytes.Mem) :
    screenSetFgAt fg row col b = .ok () (Bytes.put b (cell row col + 1) ((b (cell row col + 1) &&& 0xf0) ||| fg)) := by
  have hattr : offsetOfAttr row col b = .ok (cell row col + 1) b := by
    unfold offsetOfAttr
    rw [Exec.bind_ok (offsetOfChar_run hrow hcol b)]
    rfl
  unfold screenSetFgAt
  rw [Exec.bind_ok hattr]
  rfl

/-! ## Areas -/

/-- Only bytes of cells of the area differ. -/
def ChangesOnly (P : Nat → Nat → Prop) (b b' : Bytes.Mem) : Prop :=
  ∀ x, b' x ≠ b x → ∃ row col, P row col ∧ (x = cell row col ∨ x = cell row col + 1)

variable {P Q : Nat → Nat → Prop} {b b' b'' : Bytes.Mem}

theorem ChangesOnly.refl (P : Nat → Nat → Prop) (b : Bytes.Mem) : ChangesOnly P b b := fun _ h => absurd rfl h

theorem ChangesOnly.trans (h : ChangesOnly P b b') (h' : ChangesOnly P b' b'') : ChangesOnly P b b'' := by
  intro x hne
  by_cases hx : b' x = b x
  · exact h' x (hx ▸ hne)
  · exact h x hx

theorem ChangesOnly.mono (h : ChangesOnly P b b') (hPQ : ∀ row col, P row col → Q row col) : ChangesOnly Q b b' := by
  intro x hne
  obtain ⟨row, col, hP, hx⟩ := h x hne
  exact ⟨row, col, hPQ row col hP, hx⟩

theorem changesOnly_char (hP : P row col) (c : UInt8) : ChangesOnly P b (Bytes.put b (cell row col) c) := by
  intro x hne
  by_cases hx : x = cell row col
  · exact ⟨row, col, hP, .inl hx⟩
  · exact absurd (Bytes.put_other hx) hne

theorem changesOnly_attr (hP : P row col) (c : UInt8) : ChangesOnly P b (Bytes.put b (cell row col + 1) c) := by
  intro x hne
  by_cases hx : x = cell row col + 1
  · exact ⟨row, col, hP, .inr hx⟩
  · exact absurd (Bytes.put_other hx) hne

/-- The area is on the screen. -/
def OnScreen (P : Nat → Nat → Prop) : Prop := ∀ row col, P row col → row < screenHeight ∧ col < screenWidth

/-- A character outside the area is not changed. -/
theorem ChangesOnly.char (h : ChangesOnly P b b') (hP : OnScreen P) (hcol : col < screenWidth) (hno : ¬ P row col) :
    b' (cell row col) = b (cell row col) := by
  by_contra hne
  obtain ⟨row', col', hin, hx | hx⟩ := h _ hne
  · obtain ⟨rfl, rfl⟩ := cell_inj hcol (hP _ _ hin).2 hx
    exact hno hin
  · exact cell_ne_attr hx

/-- The code returns, and changes only the area. -/
def Draws (P : Nat → Nat → Prop) (x : ScreenM Unit) : Prop := ∀ b, ∃ b', x b = .ok () b' ∧ ChangesOnly P b b'

theorem Draws.bind {x : ScreenM Unit} {f : Unit → ScreenM Unit} (hx : Draws P x) (hf : Draws P (f ())) : Draws P (x >>= f) := by
  intro b
  obtain ⟨b₁, hrun, hch⟩ := hx b
  obtain ⟨b₂, hrun', hch'⟩ := hf b₁
  exact ⟨b₂, (Exec.bind_ok hrun).trans hrun', hch.trans hch'⟩

theorem draws_pure (P : Nat → Nat → Prop) : Draws P (pure ()) := fun b => ⟨b, rfl, .refl P b⟩

theorem draws_writeAt (hP : OnScreen P) (h : P row col) (c : UInt8) : Draws P (screenWriteAt c row col) := fun b =>
  ⟨_, screenWriteAt_run c (hP _ _ h).1 (hP _ _ h).2 b, changesOnly_char h c⟩

theorem draws_setFgAt (hP : OnScreen P) (h : P row col) (fg : UInt8) : Draws P (screenSetFgAt fg row col) := fun b =>
  ⟨_, screenSetFgAt_run fg (hP _ _ h).1 (hP _ _ h).2 b, changesOnly_attr h _⟩

/-- `screen_write_str` stays in its row. -/
theorem draws_writeStr (str : CStr) (hrow : row < screenHeight) (col : Nat) :
    Draws (fun r c => r = row ∧ c < screenWidth) (screenWriteStr str row col) := by
  have hP : OnScreen fun r c => r = row ∧ c < screenWidth := fun r c h => ⟨h.1 ▸ hrow, h.2⟩
  have hloop : ∀ n i, Draws (fun r c => r = row ∧ c < screenWidth) (screenWriteStrLoop str.chars row col n i) := by
    intro n
    induction n with
    | zero => exact fun _ => draws_pure _
    | succ n ih =>
      intro i
      rw [screenWriteStrLoop]
      split
      next hcol =>
        split
        · exact draws_pure _
        · exact (draws_writeAt hP ⟨rfl, hcol⟩ _).bind (ih (i + 1))
      · exact draws_pure _
  exact hloop screenWidth 0

end Screen

end Cing
