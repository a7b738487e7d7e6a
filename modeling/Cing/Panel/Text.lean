/-
panel_text.c, with what it uses of panel.c: a box on the screen with rows of text. The rows are kept in a buffer of 1024 * 1024
characters, each at a multiple of the width of the box, and their lengths in an array beside it. The buffer is meant as a ring, of
as many rows as two truncating divisions leave, but nothing moves its head: it takes one row less than it has, and then no more.
-/
import Cing.Drivers.Screen

namespace Cing

/-- `struct panel_text`. Its colour of the body is not used. -/
structure PanelText where
  startRow : Nat
  startCol : Nat
  endRow : Nat
  endCol : Nat
  boxColor : UInt8
  buf : Bytes.Mem
  rowLens : Nat → Nat
  bufLen : Nat
  bufTail : Nat
  windowHead : Nat
  writeCnt : Nat

abbrev PanelM := EStateM Stop PanelText

namespace Panel

open Screen

/-! ## The code -/

/-- `SCREEN_COLOR_BLUE`. -/
def screenColorBlue : UInt8 := 1

/-- The length of `buf`, and of `row_lens`. -/
def bufCap : Nat := 1024 * 1024

/-- `panel_text_width`. -/
def panelTextWidth (t : PanelText) : Nat := u64Sub (u64Sub t.endCol t.startCol) 1

/-- `panel_text_height`. -/
def panelTextHeight (t : PanelText) : Nat := u64Sub (u64Sub t.endRow t.startRow) 1

/-- `panel_text_init`. -/
def panelTextInit (row0 col0 rowx colx : Nat) : PanelM Unit := do
  modify fun t => { t with startRow := row0, startCol := col0, endRow := rowx, endCol := colx, boxColor := screenColorBlue }
  let t ← get
  (if panelTextWidth t = 0 then throw .divideError
  else set { t with bufLen := bufCap / panelTextWidth t, bufTail := 0, writeCnt := 0, windowHead := 0 })

/-- `_buf_row_total`. -/
def bufRowTotal {σ : Type} (t : PanelText) : EStateM Stop σ Nat :=
  if panelTextWidth t = 0 then throw .divideError else return t.bufLen / panelTextWidth t

/-- `_buf_row_offs`. -/
def bufRowOffs {σ : Type} (t : PanelText) (row : Nat) : EStateM Stop σ Nat := do
  let total ← bufRowTotal t
  kernelAssert (row < total) "row < _buf_row_total(txt)"
  return u64 (panelTextWidth t * row)

/-- `_buf_tail_next`. -/
def bufTailNext {σ : Type} (t : PanelText) : EStateM Stop σ Nat := do
  let total ← bufRowTotal t
  if total = 0 then throw .divideError else return u64 (t.bufTail + 1) % total

/-- `panel_text_is_full`. -/
def panelTextIsFull {σ : Type} (t : PanelText) : EStateM Stop σ Bool := do
  let next ← bufTailNext t
  return next = t.windowHead

/-- The loop of `panel_text_write_row` over the first `n` characters. -/
def writeRowLoop (off : Nat) (str : List UInt8) : Nat → PanelM Unit
  | 0 => pure ()
  | n + 1 => do
    writeRowLoop off str n
    modify fun t => { t with buf := Bytes.put t.buf (u64 (off + n)) (Str.charAt str n) }

/-- `panel_text_write_row`, with the `str_len` characters it is given. -/
def panelTextWriteRow (str : List UInt8) : PanelM Bool := do
  let t ← get
  kernelAssert (str.length < panelTextWidth t) "str_len < panel_text_width(txt)"
  let full ← panelTextIsFull t
  if full then return false
  else do
    let off ← bufRowOffs t t.bufTail
    writeRowLoop off str str.length
    modify fun t => { t with rowLens := Function.update t.rowLens t.bufTail str.length }
    let t ← get
    let next ← bufTailNext t
    set { t with bufTail := next, writeCnt := u64 (t.writeCnt + 1) }
    return true

/-- `panel_write_char`. -/
def panelWriteChar (c : UInt8) (row col : Nat) : ScreenM Unit := do
  kernelAssert (row < screenHeight) "row < SCREEN_HEIGHT"
  kernelAssert (col < screenWidth) "col < SCREEN_WIDTH"
  screenWriteAt c row col

/-- The loop of `panel_write_str_len` over the first `n` characters. -/
def writeStrLoop (str : Nat → UInt8) (row col : Nat) : Nat → ScreenM Unit
  | 0 => pure ()
  | n + 1 => do
    writeStrLoop str row col n
    panelWriteChar (str n) row (u64 (col + n))

/-- `panel_write_str_len`. -/
def panelWriteStrLen (str : Nat → UInt8) (strLen row col : Nat) : ScreenM Unit := do
  kernelAssert (u64 (col + strLen) < screenWidth) "(col + str_len) < SCREEN_WIDTH"
  writeStrLoop str row col strLen

/-- The loop of `_draw_txt` over the first `n` rows. -/
def drawTxtLoop (t : PanelText) : Nat → ScreenM Unit
  | 0 => pure ()
  | n + 1 => do
    drawTxtLoop t n
    let off ← bufRowOffs t (u64 (n + t.windowHead))
    panelWriteStrLen (fun j => t.buf (u64 (off + j))) (t.rowLens (u64 (n + t.windowHead))) (u64 (t.startRow + 1 + n))
      (u64 (t.startCol + 1))

/-- `_draw_txt`. -/
def drawTxt (t : PanelText) : ScreenM Unit :=
  drawTxtLoop t (if t.writeCnt < panelTextHeight t then t.writeCnt else panelTextHeight t)

/-- A cell of the border, with its colour. -/
def borderAt (t : PanelText) (write : Nat → Nat → ScreenM Unit) (row col : Nat) : ScreenM Unit := do
  write row col
  screenSetFgAt t.boxColor row col

/-- The loop over the first `n` rows between the corners. -/
def sidesLoop (t : PanelText) : Nat → ScreenM Unit
  | 0 => pure ()
  | n + 1 => do
    sidesLoop t n
    borderAt t screenBoxThinBorderVAt (t.startRow + 1 + n) t.startCol
    borderAt t screenBoxThinBorderVAt (t.startRow + 1 + n) t.endCol

/-- The loop over the first `n` columns between the corners. -/
def edgesLoop (t : PanelText) : Nat → ScreenM Unit
  | 0 => pure ()
  | n + 1 => do
    edgesLoop t n
    borderAt t screenBoxThinBorderHAt t.startRow (t.startCol + 1 + n)
    borderAt t screenBoxThinBorderHAt t.endRow (t.startCol + 1 + n)

/-- `panel_text_draw`. -/
def panelTextDraw (t : PanelText) : ScreenM Unit := do
  borderAt t screenBoxThinCornerNwAt t.startRow t.startCol
  borderAt t screenBoxThinCornerNeAt t.startRow t.endCol
  borderAt t screenBoxThinCornerSwAt t.endRow t.startCol
  borderAt t screenBoxThinCornerSeAt t.endRow t.endCol
  sidesLoop t (t.endRow - (t.startRow + 1))
  edgesLoop t (t.endCol - (t.startCol + 1))
  drawTxt t

/-- Calls of `panel_text_write_row`, and what they return. -/
def writeRows : List (List UInt8) → PanelM (List Bool)
  | [] => return []
  | row :: rows => do
    let ok ← panelTextWriteRow row
    let oks ← writeRows rows
    return ok :: oks

/-! ## The box -/

/-- Where a box may be: with a column of text in it, and on the screen. -/
structure Geometry where
  row0 : Nat
  col0 : Nat
  rowx : Nat
  colx : Nat
  rows : row0 + 1 ≤ rowx
  bottom : rowx ≤ 24
  cols : col0 + 2 ≤ colx
  right : colx ≤ 79

namespace Geometry

variable (g : Geometry)

def width : Nat := g.colx - g.col0 - 1

def height : Nat := g.rowx - g.row0 - 1

/-- What `_buf_row_total` is. -/
def rowTotal : Nat := bufCap / g.width / g.width

/-- The cells of the box, its border included. -/
def Box (row col : Nat) : Prop := g.row0 ≤ row ∧ row ≤ g.rowx ∧ g.col0 ≤ col ∧ col ≤ g.colx

theorem width_bounds : 0 < g.width ∧ g.width ≤ 78 ∧ g.col0 + 1 + g.width = g.colx := by
  have := g.cols
  have := g.right
  unfold width
  omega

theorem height_bounds : g.height ≤ 23 ∧ g.row0 + 1 + g.height = g.rowx := by
  have := g.rows
  have := g.bottom
  unfold height
  omega

/-- The buffer has more rows than any box. -/
theorem rowTotal_ge : 172 ≤ g.rowTotal := by
  obtain ⟨hpos, hle, -⟩ := g.width_bounds
  unfold rowTotal
  rw [Nat.le_div_iff_mul_le hpos, Nat.le_div_iff_mul_le hpos]
  calc 172 * g.width * g.width ≤ 172 * 78 * 78 := Nat.mul_le_mul (Nat.mul_le_mul_left 172 hle) hle
    _ ≤ bufCap := by decide

/-- Its rows are in the array, and so are their lengths. -/
theorem rowTotal_le : g.width * g.rowTotal ≤ bufCap ∧ g.rowTotal ≤ bufCap :=
  ⟨(Nat.mul_div_le _ _).trans (Nat.div_le_self _ _), (Nat.div_le_self _ _).trans (Nat.div_le_self _ _)⟩

/-- So is every single row, with all of its width. -/
theorem row_le {i : Nat} (h : i < g.rowTotal) : g.width * i + g.width ≤ bufCap := by
  rw [← Nat.mul_succ]
  exact (Nat.mul_le_mul_left _ h).trans g.rowTotal_le.1

theorem box_onScreen : OnScreen g.Box := by
  intro row col h
  have := g.bottom
  have := g.right
  unfold Box at h
  unfold screenHeight screenWidth
  omega

end Geometry

/-! ## Rows -/

/-- The text holds the rows that were accepted, one behind the other from the start of its arrays. -/
structure Kept (g : Geometry) (rows : List (List UInt8)) (t : PanelText) : Prop where
  startRow : t.startRow = g.row0
  startCol : t.startCol = g.col0
  endRow : t.endRow = g.rowx
  endCol : t.endCol = g.colx
  bufLen : t.bufLen = bufCap / g.width
  windowHead : t.windowHead = 0
  bufTail : t.bufTail = rows.length
  writeCnt : t.writeCnt = rows.length
  room : rows.length < g.rowTotal
  short : ∀ row ∈ rows, row.length < g.width
  lens : ∀ i (h : i < rows.length), t.rowLens i = rows[i].length
  chars : ∀ i (h : i < rows.length) j (hj : j < rows[i].length), t.buf (g.width * i + j) = rows[i][j]

/-- Nothing behind the two arrays differs. -/
def SameBehind (t t' : PanelText) : Prop := ∀ x, bufCap ≤ x → t'.buf x = t.buf x ∧ t'.rowLens x = t.rowLens x

variable {g : Geometry} {rows : List (List UInt8)} {t : PanelText} {σ : Type}

namespace Kept

theorem width_eq (h : Kept g rows t) : panelTextWidth t = g.width := by
  have hcols := g.cols
  have hright := g.right
  unfold panelTextWidth Geometry.width
  rw [h.endCol, h.startCol, u64Sub_of_le (by omega : g.col0 ≤ g.colx) (by omega), u64Sub_of_le (by omega) (by omega)]

theorem height_eq (h : Kept g rows t) : panelTextHeight t = g.height := by
  have hrows := g.rows
  have hbottom := g.bottom
  unfold panelTextHeight Geometry.height
  rw [h.endRow, h.startRow, u64Sub_of_le (by omega : g.row0 ≤ g.rowx) (by omega), u64Sub_of_le (by omega) (by omega)]

theorem rowTotal_run (h : Kept g rows t) (s : σ) : bufRowTotal t s = .ok g.rowTotal s := by
  unfold bufRowTotal
  rw [h.width_eq, if_neg g.width_bounds.1.ne', h.bufLen]
  rfl

theorem rowOffs_run (h : Kept g rows t) {row : Nat} (hrow : row < g.rowTotal) (s : σ) :
    bufRowOffs t row s = .ok (g.width * row) s := by
  have hle : g.width * row ≤ bufCap := (Nat.le_add_right _ _).trans (g.row_le hrow)
  unfold bufRowOffs
  rw [Exec.bind_ok (h.rowTotal_run s), Exec.bind_ok (kernelAssert_pos hrow _ s), h.width_eq,
    u64_of_lt (hle.trans_lt (by decide : bufCap < 2 ^ 64))]
  rfl

theorem tailNext_run (h : Kept g rows t) (s : σ) : bufTailNext t s = .ok ((rows.length + 1) % g.rowTotal) s := by
  have hge := g.rowTotal_ge
  have hle := g.rowTotal_le.2
  have hroom := h.room
  have hcap : bufCap < 2 ^ 63 := by decide
  unfold bufTailNext
  rw [Exec.bind_ok (h.rowTotal_run s), if_neg (by omega), h.bufTail, u64_of_lt (by omega)]
  rfl

/-- The text is full with one row less than it has. -/
theorem isFull_run (h : Kept g rows t) (s : σ) : panelTextIsFull t s = .ok (decide (rows.length + 1 = g.rowTotal)) s := by
  have hge := g.rowTotal_ge
  have hroom := h.room
  unfold panelTextIsFull
  rw [Exec.bind_ok (h.tailNext_run s), h.windowHead, Exec.pure_run]
  refine congrArg (fun b => EStateM.Result.ok b s) (decide_eq_decide.2 ?_)
  rcases Nat.lt_or_ge (rows.length + 1) g.rowTotal with hlt | hle
  · rw [Nat.mod_eq_of_lt hlt]
    omega
  · rw [show rows.length + 1 = g.rowTotal by omega, Nat.mod_self]
    exact iff_of_true rfl rfl

end Kept

/-- The characters of a row are spliced in. -/
theorem writeRowLoop_run {off n : Nat} {str : List UInt8} (hoff : off + n < 2 ^ 64) (hn : n ≤ str.length) (t : PanelText) :
    writeRowLoop off str n t = .ok () { t with buf := Bytes.splice t.buf off (str.take n) } := by
  induction n with
  | zero =>
    rw [List.take_zero, Bytes.splice_nil]
    rfl
  | succ n ih =>
    have hput := Bytes.put_splice t.buf off (str.take n) str[n]
    rw [List.length_take_of_le (by omega), List.take_append_getElem] at hput
    rw [writeRowLoop, Exec.bind_ok (ih (by omega) (by omega)), Exec.modify_run, u64_of_lt (by omega), Str.charAt_of_lt (by omega)]
    exact congrArg (fun b => EStateM.Result.ok PUnit.unit { t with buf := b }) hput

/-- The text with a row more. -/
def addRow (t : PanelText) (off : Nat) (str : List UInt8) : PanelText :=
  { t with buf := Bytes.splice t.buf off str, rowLens := Function.update t.rowLens t.bufTail str.length, bufTail := t.bufTail + 1,
           writeCnt := t.writeCnt + 1 }

namespace Kept

/-- A call on a text with room: the row is added. -/
theorem write_run (h : Kept g rows t) {str : List UInt8} (hstr : str.length < g.width) (hroom : rows.length + 1 < g.rowTotal) :
    panelTextWriteRow str t = .ok true (addRow t (g.width * rows.length) str) := by
  have hcap : bufCap < 2 ^ 63 := by decide
  have hle := g.rowTotal_le.2
  have hrow := g.row_le h.room
  have hend : g.width * rows.length + str.length < 2 ^ 64 := by omega
  have hfull := h.isFull_run t
  rw [decide_eq_false (by omega)] at hfull
  unfold panelTextWriteRow
  rw [Exec.bind_ok (Exec.get_run t), Exec.bind_ok (kernelAssert_pos (by rw [h.width_eq]; exact hstr) _ t), Exec.bind_ok hfull,
    if_neg Bool.false_ne_true, h.bufTail, Exec.bind_ok (h.rowOffs_run h.room t), Exec.bind_ok (writeRowLoop_run hend le_rfl t),
    List.take_length, Exec.bind_ok (Exec.modify_run _ _), Exec.bind_ok (Exec.get_run _)]
  -- the next tail does not depend on the arrays
  have hnext : ∀ b l (s : PanelText), bufTailNext { t with buf := b, rowLens := l } s = .ok (rows.length + 1) s := by
    intro b l s
    have htail := h.tailNext_run s
    rw [Nat.mod_eq_of_lt hroom] at htail
    exact htail
  refine (Exec.bind_ok (hnext _ _ _)).trans ?_
  rw [Exec.bind_ok (Exec.set_run _ _), Exec.pure_run, h.writeCnt, u64_of_lt (by omega)]
  unfold addRow
  rw [h.bufTail, h.writeCnt]

theorem add (h : Kept g rows t) {str : List UInt8} (hstr : str.length < g.width) (hroom : rows.length + 1 < g.rowTotal) :
    Kept g (rows ++ [str]) (addRow t (g.width * rows.length) str) ∧ SameBehind t (addRow t (g.width * rows.length) str) := by
  have hlen : (rows ++ [str]).length = rows.length + 1 := List.length_append
  refine ⟨⟨h.startRow, h.startCol, h.endRow, h.endCol, h.bufLen, h.windowHead, ?_, ?_, ?_, ?_, ?_, ?_⟩, fun x hx => ⟨?_, ?_⟩⟩
  · rw [hlen]
    exact congrArg (· + 1) h.bufTail
  · rw [hlen]
    exact congrArg (· + 1) h.writeCnt
  · rwa [hlen]
  · exact List.forall_mem_append.2 ⟨h.short, List.forall_mem_singleton.2 hstr⟩
  · intro i hi
    rw [hlen] at hi
    show Function.update t.rowLens t.bufTail str.length i = _
    rw [h.bufTail]
    rcases Nat.lt_or_ge i rows.length with hlt | hge
    · rw [Function.update_of_ne hlt.ne, List.getElem_append_left hlt, h.lens i hlt]
    · obtain rfl : i = rows.length := by omega
      rw [Function.update_self, List.getElem_concat_length rfl]
  · intro i hi j hj
    rw [hlen] at hi
    show Bytes.splice t.buf (g.width * rows.length) str (g.width * i + j) = _
    rcases Nat.lt_or_ge i rows.length with hlt | hge
    · -- an earlier row ends before this one starts
      rw [List.getElem_append_left hlt] at hj
      have hshort := h.short _ (List.getElem_mem hlt)
      have hbefore : g.width * i + g.width ≤ g.width * rows.length := by
        rw [← Nat.mul_succ]
        exact Nat.mul_le_mul_left _ hlt
      rw [Bytes.splice_outside (.inl (by omega)), h.chars i hlt j hj]
      simp only [List.getElem_append_left hlt]
    · obtain rfl : i = rows.length := by omega
      simp only [List.getElem_concat_length rfl] at hj ⊢
      exact Bytes.splice_inside hj
  · have hrow := g.row_le h.room
    exact Bytes.splice_outside (.inr (by omega))
  · have hle := g.rowTotal_le.2
    show Function.update t.rowLens t.bufTail str.length x = t.rowLens x
    rw [h.bufTail]
    exact Function.update_of_ne (by omega) ..

/-- A call on a text without: nothing changes. -/
theorem write_refused (h : Kept g rows t) {str : List UInt8} (hstr : str.length < g.width) (hfull : rows.length + 1 = g.rowTotal) :
    panelTextWriteRow str t = .ok false t := by
  have hrun := h.isFull_run t
  rw [decide_eq_true hfull] at hrun
  unfold panelTextWriteRow
  rw [Exec.bind_ok (Exec.get_run t), Exec.bind_ok (kernelAssert_pos (by rw [h.width_eq]; exact hstr) _ t),
    Exec.bind_ok hrun, if_pos rfl, Exec.pure_run]

/-- Any number of calls: the first ones are accepted, up to one row less than there are. -/
theorem writes_run (h : Kept g rows t) {more : List (List UInt8)} (hmore : ∀ row ∈ more, row.length < g.width) :
    ∃ t', writeRows more t = .ok (List.replicate (min (g.rowTotal - 1 - rows.length) more.length) true ++
        List.replicate (more.length - (g.rowTotal - 1 - rows.length)) false) t' ∧
      Kept g (rows ++ more.take (g.rowTotal - 1 - rows.length)) t' ∧ SameBehind t t' := by
  induction more generalizing rows t with
  | nil =>
    refine ⟨t, ?_, ?_, fun _ _ => ⟨rfl, rfl⟩⟩
    · rw [List.length_nil, Nat.min_zero, Nat.zero_sub]
      rfl
    · rwa [List.take_nil, List.append_nil]
  | cons str more ih =>
    obtain ⟨hstr, hmore⟩ := List.forall_mem_cons.1 hmore
    have hlt := h.room
    rw [writeRows]
    rcases Nat.lt_or_ge (rows.length + 1) g.rowTotal with hroom | hfull
    · obtain ⟨hkept, hbehind⟩ := h.add hstr hroom
      obtain ⟨t', hrun, hkept', hbehind'⟩ := ih hkept hmore
      obtain ⟨k, hk⟩ : ∃ k, g.rowTotal - 1 - rows.length = k + 1 := ⟨g.rowTotal - 1 - rows.length - 1, by omega⟩
      have hk' : g.rowTotal - 1 - (rows ++ [str]).length = k := by
        rw [List.length_append, List.length_singleton]
        omega
      rw [hk'] at hrun hkept'
      refine ⟨t', ?_, ?_, fun x hx => ?_⟩
      · rw [Exec.bind_ok (h.write_run hstr hroom), Exec.bind_ok hrun, Exec.pure_run, hk, List.length_cons, Nat.succ_min_succ,
          List.replicate_succ, Nat.add_sub_add_right]
        rfl
      · rwa [hk, List.take_succ_cons, List.append_cons]
      · obtain ⟨hbuf, hlens⟩ := hbehind x hx
        obtain ⟨hbuf', hlens'⟩ := hbehind' x hx
        exact ⟨hbuf'.trans hbuf, hlens'.trans hlens⟩
    · obtain ⟨t', hrun, hkept', hbehind'⟩ := ih h hmore
      have hk : g.rowTotal - 1 - rows.length = 0 := by omega
      rw [hk] at hrun hkept'
      refine ⟨t', ?_, ?_, hbehind'⟩
      · rw [Exec.bind_ok (h.write_refused hstr (by omega)), Exec.bind_ok hrun, Exec.pure_run, hk, Nat.zero_min,
          Nat.zero_min, Nat.sub_zero, Nat.sub_zero, List.length_cons, List.replicate_succ]
        rfl
      · rwa [hk]

end Kept

/-- The text is empty at first. -/
theorem init_run (g : Geometry) (t : PanelText) : ∃ t', panelTextInit g.row0 g.col0 g.rowx g.colx t = .ok () t' ∧ Kept g [] t' ∧
    SameBehind t t' := by
  have hcols := g.cols
  have hright := g.right
  have hwidth : panelTextWidth
      { t with
        startRow := g.row0, startCol := g.col0, endRow := g.rowx, endCol := g.colx, boxColor := screenColorBlue } = g.width := by
    show u64Sub (u64Sub g.colx g.col0) 1 = g.colx - g.col0 - 1
    rw [u64Sub_of_le (by omega : g.col0 ≤ g.colx) (by omega), u64Sub_of_le (by omega) (by omega)]
  have hge := g.rowTotal_ge
  unfold panelTextInit
  rw [Exec.bind_ok (Exec.modify_run _ t), Exec.bind_ok (Exec.get_run _), hwidth, if_neg g.width_bounds.1.ne', Exec.set_run]
  refine ⟨_, rfl, ⟨rfl, rfl, rfl, rfl, rfl, rfl, rfl, rfl, ?_, nofun, nofun, nofun⟩, fun _ _ => ⟨rfl, rfl⟩⟩
  rw [List.length_nil]
  omega

/-! ## Drawing -/

/-- A string in one row of the screen. -/
theorem writeStrLoop_run (str : Nat → UInt8) (row col n : Nat) (hrow : row < screenHeight)
    (hcol : col + n ≤ screenWidth) (b : Bytes.Mem) :
    ∃ b', writeStrLoop str row col n b = .ok () b' ∧ ChangesOnly (fun r c => r = row ∧ col ≤ c ∧ c < col + n) b b' ∧
      ∀ j < n, b' (cell row (col + j)) = str j := by
  have hscreen : screenWidth < 2 ^ 64 := by decide
  induction n with
  | zero => exact ⟨b, rfl, .refl _ b, nofun⟩
  | succ n ih =>
    obtain ⟨b₁, hrun, hch, hchars⟩ := ih (by omega)
    have hin : col + n < screenWidth := by omega
    have hput : panelWriteChar (str n) row (col + n) b₁ = .ok () (Bytes.put b₁ (cell row (col + n)) (str n)) := by
      unfold panelWriteChar
      rw [Exec.bind_ok (kernelAssert_pos hrow _ b₁), Exec.bind_ok (kernelAssert_pos hin _ b₁), screenWriteAt_run _ hrow hin]
    refine ⟨Bytes.put b₁ (cell row (col + n)) (str n), ?_, ?_, fun j hj => ?_⟩
    · rw [writeStrLoop, Exec.bind_ok hrun, u64_of_lt (by omega), hput]
    · exact (hch.mono fun r c h => ⟨h.1, h.2.1, by omega⟩).trans (changesOnly_char ⟨rfl, by omega, by omega⟩ _)
    · rcases Nat.lt_or_ge j n with hlt | hge
      · have hne : cell row (col + j) ≠ cell row (col + n) := fun he => by
          have := (cell_inj (by omega) hin he).2
          omega
        rw [Bytes.put_other hne, hchars j hlt]
      · obtain rfl : j = n := by omega
        exact Bytes.put_same ..

/-- The inside of the first `n` rows of the box. -/
def Geometry.Inside (g : Geometry) (n row col : Nat) : Prop :=
  g.row0 + 1 ≤ row ∧ row < g.row0 + 1 + n ∧ g.col0 + 1 ≤ col ∧ col < g.colx

theorem Geometry.inside_box {n : Nat} (hn : n ≤ g.height) : ∀ row col, g.Inside n row col → g.Box row col := by
  intro row col h
  have := g.height_bounds
  unfold Geometry.Inside at h
  unfold Geometry.Box
  omega

theorem Kept.drawTxtLoop_run (h : Kept g rows t) {n : Nat} (hn : n ≤ rows.length) (hheight : n ≤ g.height) (b : Bytes.Mem) :
    ∃ b', drawTxtLoop t n b = .ok () b' ∧ ChangesOnly (g.Inside n) b b' ∧
      ∀ i (hi : i < n) j (hj : j < rows[i].length), b' (cell (g.row0 + 1 + i) (g.col0 + 1 + j)) = rows[i][j] := by
  obtain ⟨hpos, hwle, hwidth⟩ := g.width_bounds
  obtain ⟨hhle, hrows⟩ := g.height_bounds
  have hbottom := g.bottom
  have hright := g.right
  have hge := g.rowTotal_ge
  have hscreen : screenHeight = 25 ∧ screenWidth = 80 := ⟨rfl, rfl⟩
  induction n with
  | zero => exact ⟨b, rfl, .refl _ b, nofun⟩
  | succ n ih =>
    obtain ⟨b₁, hrun, hch, hshown⟩ := ih (by omega) (by omega)
    have hlt : n < rows.length := by omega
    have hshort : rows[n].length < g.width := h.short _ (List.getElem_mem hlt)
    have hoffs := h.rowOffs_run (by omega : n < g.rowTotal) b₁
    have hin := g.row_le (by omega : n < g.rowTotal)
    have hcap : bufCap < 2 ^ 63 := by decide
    obtain ⟨b₂, hrow, hchrow, hchars⟩ := writeStrLoop_run (fun j => t.buf (u64 (g.width * n + j))) (g.row0 + 1 + n)
      (g.col0 + 1) rows[n].length (by omega) (by omega) b₁
    have hlen : panelWriteStrLen (fun j => t.buf (u64 (g.width * n + j))) rows[n].length (g.row0 + 1 + n)
        (g.col0 + 1) b₁ = .ok () b₂ := by
      unfold panelWriteStrLen
      rw [Exec.bind_ok (kernelAssert_pos (by rw [u64_of_lt (by omega)]; omega) _ b₁), hrow]
    have hinside : ChangesOnly (g.Inside (n + 1)) b₁ b₂ := by
      refine hchrow.mono fun r c hrc => ?_
      unfold Geometry.Inside
      omega
    refine ⟨b₂, ?_, ?_, fun i hi j hj => ?_⟩
    · rw [drawTxtLoop, Exec.bind_ok hrun, h.windowHead, Nat.add_zero, u64_of_lt (by omega : n < 2 ^ 64),
        Exec.bind_ok hoffs, h.lens n hlt,
        h.startRow, h.startCol, u64_of_lt (by omega : g.row0 + 1 + n < 2 ^ 64), u64_of_lt (by omega : g.col0 + 1 < 2 ^ 64), hlen]
    · refine (hch.mono fun r c hrc => ?_).trans hinside
      unfold Geometry.Inside at hrc ⊢
      omega
    · rcases Nat.lt_or_ge i n with hin' | hge'
      · -- the earlier rows are on other rows of the screen
        have hother : ¬ (g.row0 + 1 + i = g.row0 + 1 + n ∧ g.col0 + 1 ≤ g.col0 + 1 + j ∧
            g.col0 + 1 + j < g.col0 + 1 + rows[n].length) := by
          omega
        have honscreen : OnScreen fun r c => r = g.row0 + 1 + n ∧ g.col0 + 1 ≤ c ∧ c < g.col0 + 1 + rows[n].length := by
          intro r c hrc
          omega
        have hjshort := h.short _ (List.getElem_mem (by omega : i < rows.length))
        rw [hchrow.char honscreen (by omega) hother, hshown i hin' j hj]
      · obtain rfl : i = n := by omega
        rw [hchars j hj, u64_of_lt (by omega), h.chars i hlt j hj]

/-- A cell of the border. -/
theorem draws_borderAt {row col : Nat} (c : UInt8) (hbox : g.Box row col) : Draws g.Box (borderAt t (screenWriteAt c) row col) :=
  (draws_writeAt g.box_onScreen hbox c).bind (draws_setFgAt g.box_onScreen hbox t.boxColor)

theorem Kept.draws_sides (h : Kept g rows t) {n : Nat} (hn : g.row0 + 1 + n ≤ g.rowx) : Draws g.Box (sidesLoop t n) := by
  have hcols := g.cols
  induction n with
  | zero => exact draws_pure _
  | succ n ih =>
    rw [sidesLoop, h.startRow, h.startCol, h.endCol]
    refine (ih (by omega)).bind ((draws_borderAt 179 ?_).bind (draws_borderAt 179 ?_))
    · unfold Geometry.Box
      omega
    · unfold Geometry.Box
      omega

theorem Kept.draws_edges (h : Kept g rows t) {n : Nat} (hn : g.col0 + 1 + n ≤ g.colx) : Draws g.Box (edgesLoop t n) := by
  have hrows := g.rows
  induction n with
  | zero => exact draws_pure _
  | succ n ih =>
    rw [edgesLoop, h.startRow, h.startCol, h.endRow]
    refine (ih (by omega)).bind ((draws_borderAt 196 ?_).bind (draws_borderAt 196 ?_))
    · unfold Geometry.Box
      omega
    · unfold Geometry.Box
      omega

/-- Code that draws in the box, and then more. -/
theorem draws_then {x : ScreenM Unit} {f : Unit → ScreenM Unit} {Q : Bytes.Mem → Prop} (hx : Draws g.Box x)
    (hf : ∀ b, ∃ b', f () b = .ok () b' ∧ ChangesOnly g.Box b b' ∧ Q b') (b : Bytes.Mem) :
    ∃ b', (x >>= f) b = .ok () b' ∧ ChangesOnly g.Box b b' ∧ Q b' := by
  obtain ⟨b₁, hrun, hch⟩ := hx b
  obtain ⟨b₂, hrun', hch', hq⟩ := hf b₁
  exact ⟨b₂, (Exec.bind_ok hrun).trans hrun', hch.trans hch', hq⟩

/-- The box is drawn, and in it the rows that it has room for. -/
theorem Kept.draw_run (h : Kept g rows t) (b : Bytes.Mem) : ∃ b', panelTextDraw t b = .ok () b' ∧ ChangesOnly g.Box b b' ∧
    ∀ i (hi : i < rows.length) j (hj : j < rows[i].length), i < g.height →
      b' (cell (g.row0 + 1 + i) (g.col0 + 1 + j)) = rows[i][j] := by
  have hrows := g.rows
  have hcols := g.cols
  have hbox : ∀ row col, (row = g.row0 ∨ row = g.rowx) → (col = g.col0 ∨ col = g.colx) → g.Box row col := by
    intro row col hrow hcol
    unfold Geometry.Box
    omega
  unfold panelTextDraw
  rw [h.startRow, h.startCol, h.endRow, h.endCol]
  refine draws_then (draws_borderAt 218 (hbox _ _ (.inl rfl) (.inl rfl)))
    (draws_then (draws_borderAt 191 (hbox _ _ (.inl rfl) (.inr rfl)))
    (draws_then (draws_borderAt 192 (hbox _ _ (.inr rfl) (.inl rfl)))
      (draws_then (draws_borderAt 217 (hbox _ _ (.inr rfl) (.inr rfl)))
      (draws_then (h.draws_sides (by omega)) (draws_then (h.draws_edges (by omega)) fun b => ?_))))) b
  unfold drawTxt
  rw [h.writeCnt, h.height_eq]
  have hmin : (if rows.length < g.height then rows.length else g.height) = min rows.length g.height := by
    split <;> omega
  rw [hmin]
  obtain ⟨b', hrun, hch, hshown⟩ := h.drawTxtLoop_run (Nat.min_le_left _ _) (Nat.min_le_right _ _) b
  exact ⟨b', hrun, hch.mono (Geometry.inside_box (Nat.min_le_right _ _)), fun i hi j hj hheight => hshown i (by omega) j hj⟩

/-- After any calls with rows that are shorter than the box is wide: the first of them are accepted, one less than the buffer has
rows, and a further call changes nothing; the accepted rows stand in the two arrays, behind which nothing changed; and drawing fails
no assertion, stays in the box and shows the rows for which the box is high enough. -/
theorem panel_keeps_and_shows (g : Geometry) (t₀ : PanelText) {rows : List (List UInt8)}
    (hrows : ∀ row ∈ rows, row.length < g.width) :
    ∃ t, (do panelTextInit g.row0 g.col0 g.rowx g.colx; writeRows rows : PanelM (List Bool)) t₀ =
        .ok (List.replicate (min (g.rowTotal - 1) rows.length) true ++ List.replicate (rows.length - (g.rowTotal - 1)) false) t ∧
      bufRowTotal t t = .ok g.rowTotal t ∧
      (g.rowTotal - 1 ≤ rows.length → ∀ row : List UInt8, row.length < g.width → panelTextWriteRow row t = .ok false t) ∧
      (∀ i (h : i < (rows.take (g.rowTotal - 1)).length), i < bufCap ∧ t.rowLens i = (rows.take (g.rowTotal - 1))[i].length ∧
        g.width * i + (rows.take (g.rowTotal - 1))[i].length ≤ bufCap ∧
        ∀ j (hj : j < (rows.take (g.rowTotal - 1))[i].length), t.buf (g.width * i + j) = (rows.take (g.rowTotal - 1))[i][j]) ∧
      SameBehind t₀ t ∧
      ∀ b, ∃ b', panelTextDraw t b = .ok () b' ∧ ChangesOnly g.Box b b' ∧
        ∀ i (h : i < (rows.take (g.rowTotal - 1)).length) j (hj : j < (rows.take (g.rowTotal - 1))[i].length), i < g.height →
          b' (cell (g.row0 + 1 + i) (g.col0 + 1 + j)) = (rows.take (g.rowTotal - 1))[i][j] := by
  obtain ⟨t₁, hinit, hkept₁, hbehind₁⟩ := init_run g t₀
  obtain ⟨t, hrun, hkept, hbehind⟩ := hkept₁.writes_run hrows
  rw [List.length_nil, Nat.sub_zero] at hrun hkept
  rw [List.nil_append] at hkept
  refine ⟨t, (Exec.bind_ok hinit).trans hrun, hkept.rowTotal_run t, fun hfull row hrow => ?_, fun i hi => ?_,
    fun x hx => ?_, hkept.draw_run⟩
  · have hge := g.rowTotal_ge
    refine hkept.write_refused hrow ?_
    rw [List.length_take, Nat.min_eq_left hfull]
    omega
  · have hroom := hkept.room
    have hshort := hkept.short _ (List.getElem_mem hi)
    have hin := g.row_le (by omega : i < g.rowTotal)
    have hcap := g.rowTotal_le.2
    exact ⟨by omega, hkept.lens i hi, by omega, hkept.chars i hi⟩
  · obtain ⟨hbuf₁, hlens₁⟩ := hbehind₁ x hx
    obtain ⟨hbuf, hlens⟩ := hbehind x hx
    exact ⟨hbuf.trans hbuf₁, hlens.trans hlens₁⟩

/-- The box of the log. -/
def logBox : Geometry := ⟨1, 0, 23, 79, by decide, by decide, by decide, by decide⟩

def panelText₀ : PanelText := ⟨0, 0, 0, 0, 0, fun _ => 0, fun _ => 0, 0, 0, 0, 0⟩

/-- The log is given one row more than its ring holds. -/
def logRows : List (List UInt8) := List.replicate 172 [97]

/-- The last row is refused, and so is every later one; the box shows the first 21. -/
theorem panel_keeps_and_shows_full : ∃ t, (do panelTextInit 1 0 23 79; writeRows logRows : PanelM (List Bool)) panelText₀ =
      .ok (List.replicate 171 true ++ [false]) t ∧ panelTextWriteRow [98] t = .ok false t ∧
    ∀ b, ∃ b', panelTextDraw t b = .ok () b' ∧ ∀ i < 21, b' (cell (2 + i) 1) = 97 := by
  have htotal : logBox.rowTotal - 1 = 171 := by decide +kernel
  have hheight : logBox.height = 21 := by decide +kernel
  have hrows : ∀ row ∈ logRows, row.length < logBox.width := fun row hrow => by
    rw [List.eq_of_mem_replicate hrow]
    decide
  have hlen : logRows.length = 172 := List.length_replicate
  have htake : logRows.take 171 = List.replicate 171 [97] := List.take_replicate
  obtain ⟨t, hrun, -, hrefused, -, -, hdraw⟩ := panel_keeps_and_shows logBox panelText₀ hrows
  simp only [htotal, hlen, htake, hheight] at hrun hrefused hdraw
  refine ⟨t, hrun, hrefused (by decide) [98] (by decide), fun b => ?_⟩
  obtain ⟨b', hb, -, hshown⟩ := hdraw b
  refine ⟨b', hb, fun i hi => ?_⟩
  have hin : i < (List.replicate 171 [(97 : UInt8)]).length := by
    rw [List.length_replicate]
    omega
  have hrow : (List.replicate 171 [(97 : UInt8)])[i] = [97] := List.getElem_replicate hin
  have hfirst : 0 < (List.replicate 171 [(97 : UInt8)])[i].length := by
    rw [hrow]
    exact Nat.one_pos
  have hchar : (List.replicate 171 [(97 : UInt8)])[i][0] = 97 := by simp only [hrow, List.getElem_cons_zero]
  exact (hshown i hin 0 hfirst hi).trans hchar

end Panel

end Cing
