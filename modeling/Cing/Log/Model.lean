/-
log.c, with what it draws on: video.c and drivers_vesa.c. A log line goes to the serial port in full and to the screen as far as the
row has room, character by character, and every character is a block of 8 by 16 pixels of the frame buffer. The cursor is kept in
log.c, the size of the screen in drivers_vesa.c, zero until `d_vesa_bootstrap`; the end of a line takes the next row modulo the
number of rows.
-/
import Cing.Containers.Format
import Cing.Log.FileStrip

namespace Cing

/-- A call of `video_draw_char`: where, and how many rows and columns the screen has then. -/
structure CharDraw where
  row : Nat
  col : Nat
  rowMax : Nat
  colMax : Nat

/-- The variables of log.c and drivers_vesa.c, the memory behind the frame buffer, what was sent to the serial port and the calls of
`video_draw_char`, the last one first. -/
structure LogState where
  screenRow : Nat
  screenCol : Nat
  writeScreen : Bool
  buf : Nat
  width : Nat
  height : Nat
  depth : Nat
  video : Bytes.Mem
  serial : List UInt8
  draws : List CharDraw

abbrev LogM := EStateM Stop LogState

inductive LogLevel where
  | selfTest | debug | info | warn | error | fatal

/-- The characters of a text. -/
def ascii (s : String) : List UInt8 := s.toList.map Char.toUInt8

namespace Log

open Str

/-! ## drivers_vesa.c and video.c -/

/-- What of `frame_buffer_info_t` is used. -/
structure FrameBufferInfo where
  paddr : UInt64
  width : UInt32
  height : UInt32
  depth : UInt8
  colourType : UInt8
  reserved : UInt8

/-- `d_vesa_draw_pixel`. -/
def dVesaDrawPixel (x y : Nat) (red green blue : UInt8) : LogM Unit := do
  let s ← get
  kernelAssert (x < s.width) "x < _width"
  kernelAssert (y < s.height) "y < _height"
  let idx := u64 (u64 (y * s.width + x) * s.depth)
  let place := fun k => u64 (s.buf + (idx + k))
  modify fun s => { s with video := Bytes.put (Bytes.put (Bytes.put s.video (place 0) blue) (place 1) green) (place 2) red }

/-- `video_char_row_max`. -/
def videoCharRowMax (s : LogState) : Nat := s.height / 16

/-- `video_char_col_max`. -/
def videoCharColMax (s : LogState) : Nat := s.width / 8

section Code

-- the build, and `font_vga_8x16`
variable (dbg : Bool) (font : Nat → UInt8)

/-- The inner loop of `video_draw_char`, over the first `n` pixels of a line of the character. -/
def pixelLoop (row col : Nat) (ch : UInt8) (ln : Nat) : Nat → LogM Unit
  | 0 => pure ()
  | n + 1 => do
    pixelLoop row col ch ln n
    if (font (ch.toNat * 16 + ln)).toNat.testBit (8 - n - 1) then
      dVesaDrawPixel (col * 8 + n) (row * 16 + ln) 255 255 255 else pure ()

/-- The outer loop of `video_draw_char`, over the first `n` lines. -/
def lineLoop (row col : Nat) (ch : UInt8) : Nat → LogM Unit
  | 0 => pure ()
  | n + 1 => do
    lineLoop row col ch n
    pixelLoop font row col ch n 8

/-- `video_draw_char`. -/
def videoDrawChar (row col : Nat) (ch : UInt8) : LogM Unit := do
  let s ← get
  set { s with draws := ⟨row, col, videoCharRowMax s, videoCharColMax s⟩ :: s.draws }
  kernelAssert (row < videoCharRowMax s) "row < video_char_row_max()"
  kernelAssert (col < videoCharColMax s) "col < video_char_col_max()"
  lineLoop font row col ch 16

/-! ## log.c -/

/-- `log_enable_video_write`. -/
def logEnableVideoWrite : LogM Unit := modify fun s => { s with writeScreen := true }

/-- `serial_write_str`, to a port that takes what it gets. -/
def serialWriteStr (str : List UInt8) : LogM Unit := modify fun s => { s with serial := s.serial ++ str }

/-- The loop of `log_str_len` over the first `n` characters. The cursor moves before the character is drawn. -/
def drawLoop (str : List UInt8) : Nat → LogM Unit
  | 0 => pure ()
  | n + 1 => do
    drawLoop str n
    let s ← get
    set { s with screenCol := u64 (s.screenCol + 1) }
    videoDrawChar font s.screenRow s.screenCol (charAt str n)

/-- `log_str_len`, with the `len` bytes it is given. -/
def logStrLen (str : List UInt8) : LogM Unit := do
  serialWriteStr str
  let s ← get
  if s.writeScreen then do
    kernelAssertD dbg (s.screenCol ≤ videoCharColMax s) "_screen_col <= video_width"
    let room := u64Sub (videoCharColMax s) s.screenCol
    drawLoop font str (if room < str.length then room else str.length)
  else pure ()

/-- `_LINE_PREFIX_LEVEL`, six bytes of each, the last one its NUL. -/
def linePrefixLevel : LogLevel → List UInt8
  | .selfTest => ascii "[STE]" ++ [0]
  | .debug => ascii "[DBG]" ++ [0]
  | .info => ascii "[INF]" ++ [0]
  | .warn => ascii "[WRN]" ++ [0]
  | .error => ascii "[ERR]" ++ [0]
  | .fatal => ascii "[FAT]" ++ [0]

/-- `str_len` of the string at an offset, at most `n` rounds. -/
def strLenAt (file : Nat → UInt8) (off : Nat) : Nat → Nat → StripM Nat
  | 0, _ => throw .hang
  | n + 1, len => do
    let ch ← readChar file (off + len)
    if ch ≠ 0 then strLenAt file off n (len + 1) else return len

/-- The text that `_log_line_start` makes of a path: the string that `_file_strip` returns. -/
def fileText (file : Nat → UInt8) (n : Nat) : StripM (List UInt8) := do
  let off ← fileStrip dbg file n
  let len ← strLenAt file off n 0
  return (List.range len).map fun i => file (off + i)

/-- A buffer on the stack, and the arguments of the call. -/
def stackBuf (va : List Arg) : StrState := ⟨fun _ => 0, fun _ => false, va⟩

/-- The text that `log_uint` makes, in a buffer of 64 bytes. -/
def uintText (uval : Nat) : StrM (List UInt8) := do
  let len ← strBufMarshalUint 0 64 uval
  let s ← get
  return (List.range len).map s.buf

/-- `log_uint`. -/
def logUint (uval : Nat) : LogM Unit := do
  let msg ← Exec.calls (uintText uval) (stackBuf [])
  logStrLen dbg font msg

/-- `_log_line_start`. -/
def logLineStart (lv : LogLevel) (file : Nat → UInt8) (line : UInt64) (n : Nat) : LogM Unit := do
  logStrLen dbg font (linePrefixLevel lv)
  logStrLen dbg font (ascii " ")
  let path ← Exec.calls (fileText dbg file n) []
  logStrLen dbg font path
  logStrLen dbg font (ascii ":")
  logUint dbg font line.toNat
  logStrLen dbg font (ascii " ")

/-- `_log_line_end`. -/
def logLineEnd : LogM Unit := do
  let s ← get
  (if s.writeScreen then
    if videoCharRowMax s = 0 then throw .divideError
    else set { s with screenRow := u64 (s.screenRow + 1) % videoCharRowMax s, screenCol := 0 }
  else pure ())
  serialWriteStr (ascii "\r\n")

/-- `_log_builtin_test_pass`. -/
def logBuiltinTestPass (testName : CStr) (file : Nat → UInt8) (line : UInt64) (n : Nat) : LogM Unit := do
  logLineStart dbg font .selfTest file line n
  logStrLen dbg font testName.chars
  logStrLen dbg font (ascii " .. Passed.")
  logLineEnd

/-- The text that `_log_line_format_v` makes, in a buffer of 256 bytes. -/
def formatText256 (format : List UInt8) : StrM (List UInt8) := do
  let len ← strBufMarshalFormatV 0 256 format format.length
  let s ← get
  return (List.range len).map s.buf

/-- `_log_line_format_v`. -/
def logLineFormatV (lv : LogLevel) (file : Nat → UInt8) (line : UInt64) (format : CStr) (args : List Arg)
    (n : Nat) : LogM Unit := do
  logLineStart dbg font lv file line n
  let buf ← Exec.calls (formatText256 format.chars) (stackBuf args)
  logStrLen dbg font buf
  logLineEnd

/-- `d_vesa_bootstrap`; `file` is the path of drivers_vesa.c. -/
def dVesaBootstrap (info : FrameBufferInfo) (fbLen : Nat) (file : Nat → UInt8) (n : Nat) : LogM Unit := do
  kernelAssert (info.colourType = 1) "info->colour_type == 1"
  kernelAssert (info.depth = 32) "info->depth == 32"
  kernelAssert (info.reserved = 0) "info->reserved == 0"
  kernelAssert (fbLen = 30) "fb_len == 30"
  modify fun s =>
    { s with buf := info.paddr.toNat, width := info.width.toNat, height := info.height.toNat, depth := info.depth.toNat }
  kernelAssert (info.depth.toNat % 8 = 0) "_depth % 8 == 0"
  modify fun s => { s with depth := s.depth / 8 }
  logLineFormatV dbg font .info file 82 ⟨ascii "Frame buffer: %lux%lu, %lu, pa: %lu", by decide⟩
    [.uint info.width.toUInt64, .uint info.height.toUInt64, .uint (info.depth / 8).toUInt64, .uint info.paddr] n

end Code

end Log

end Cing
