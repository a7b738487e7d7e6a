/-
kernel_panic.c: the way of a panic to its halt loop. `_kernel_panic` and `_kernel_assert_fail` log two lines, and the formatter of a
line asserts that strings have room in 256 bytes: an assertion of containers_string.c that fails inside a panic is another panic,
with the path of containers_string.c as its file. If that path is too long itself, then the failures nest without end.
-/
import Mathlib.Data.List.TakeWhile
import Cing.Containers.Stops
import Cing.Drivers.Screen
import Cing.Kernel.PanicPath
import Cing.Log.Screen

namespace Cing

/-- What a panic works on: the log and the text buffer. -/
structure PanicState where
  log : LogState
  vga : Bytes.Mem

abbrev PanicM := EStateM Stop PanicState

namespace Kernel

open Str Log Screen

/-! ## The code -/

/-- The string at the start of some bytes. -/
def cstrOf (l : List UInt8) : CStr := ⟨l.takeWhile (· ≠ 0), fun h => by
  have hne := List.all_eq_true.1 List.all_takeWhile 0 h
  simp at hne⟩

/-- A literal. -/
def cstr (s : String) : CStr := cstrOf (ascii s)

/-- The text that `_unsigned_to_str` makes of a line number, in a buffer of 128 bytes. -/
def lnStr (line : Nat) : StrM CStr := do
  unsignedToStr line 128
  let s ← get
  return cstrOf ((List.range 128).map s.buf)

def onLog (x : LogM Unit) : PanicM Unit := Exec.zoom PanicState.log (fun l s => { s with log := l }) x

def onScreen (x : ScreenM Unit) : PanicM Unit := Exec.zoom PanicState.vga (fun b s => { s with vga := b }) x

/-- Runs a part of a panic. If it stops, then the panic ends in what the failure raises. -/
def orRaise (raise : Stop → PanicM Unit) (x : LogM Unit) (rest : PanicM Unit) : PanicM Unit := fun s =>
  match onLog x s with
  | .ok _ s' => rest s'
  | .error e s' => raise e s'

section Code

-- the build, the font, the path of kernel_panic.c, that of containers_string.c, where other code raises a failure, and the rounds
-- that the loops over a path may take
variable (dbg : Bool) (font : Nat → UInt8) (kernelPanicFile : Nat → UInt8) (stringFile : CStr)
    (elsewhere : Stop → CStr × UInt64) (m : Nat)

/-- `_kernel_panic`; it returns when its halt loop is reached. -/
def kernelPanic (raise : Stop → PanicM Unit) (file : CStr) (line : UInt64) (msg : CStr) : PanicM Unit := do
  onScreen (screenWriteStr (cstr "Kernel panic!") (screenHeight - 5) 0)
  onScreen (screenWriteStr msg (screenHeight - 4) 0)
  onScreen (screenWriteStr (cstr "File:") (screenHeight - 3) 0)
  onScreen (screenWriteStr file (screenHeight - 2) 0)
  let ln ← Exec.calls (lnStr line.toNat) (stackBuf [])
  onScreen (screenWriteStr ln (screenHeight - 1) 0)
  orRaise raise (logLineFormatV dbg font .fatal kernelPanicFile 71 (cstr "Kernel panic! %s") [.str msg] m) <|
    orRaise raise (logLineFormatV dbg font .fatal kernelPanicFile 72 (cstr "File: %s, line:%lu ") [.str file, .uint line] m) <|
      pure ()

/-- `_kernel_assert_fail`; it returns when its halt loop is reached. -/
def kernelAssertFail (raise : Stop → PanicM Unit) (expr file : CStr) (line : UInt64) : PanicM Unit := do
  onScreen (screenWriteStr (cstr "Kernel assertion failure!") (screenHeight - 7) 0)
  onScreen (screenWriteStr (cstr "Expression:") (screenHeight - 6) 0)
  onScreen (screenWriteStr expr (screenHeight - 5) 0)
  onScreen (screenWriteStr (cstr "File:") (screenHeight - 4) 0)
  onScreen (screenWriteStr file (screenHeight - 3) 0)
  let ln ← Exec.calls (lnStr line.toNat) (stackBuf [])
  onScreen (screenWriteStr (cstr "Line:") (screenHeight - 2) 0)
  onScreen (screenWriteStr ln (screenHeight - 1) 0)
  orRaise raise (logLineFormatV dbg font .fatal kernelPanicFile 100
    (cstr "Kernel assertion failure! Expression: %s") [.str expr] m) <|
    orRaise raise (logLineFormatV dbg font .fatal kernelPanicFile 102 (cstr "File: %s, line: %lu") [.str file, .uint line] m) <|
      pure ()

/-- The line of an assertion of the formatter and what it calls, in containers_string.c. -/
def stringLine (expr : String) : Option UInt64 :=
  if expr = "str_ptr > str_off" then some 52
  else if expr = "(buf_len - buf_off) > str_len" then some 63
  else if expr = "(buf_len - buf_off) > digit_cnt" then some 138
  else if expr = "buf_off_pro == buf_off" then some 153
  else if expr = "buf_off < buf_len" then some 202
  else if expr = "buf_ptr < buf_len" then some 236
  else if expr = "buf_ptr <= buf_len" then some 246
  else none

/-- The file and the line that the macros give to a failure. -/
def place : Stop → CStr × UInt64
  | .assertFail expr =>
    match stringLine expr with
    | some line => (stringFile, line)
    | none => elsewhere (.assertFail expr)
  | e => elsewhere e

/-- A failure inside a panic, with at most `n` failures nested in each other. An exception of the processor and a loop that never
ends are not handled. -/
def raised : Nat → Stop → PanicM Unit
  | 0, _ => throw .hang
  | n + 1, .assertFail expr =>
    kernelAssertFail dbg font kernelPanicFile m (raised n) (cstr expr) (place stringFile elsewhere (.assertFail expr)).1
      (place stringFile elsewhere (.assertFail expr)).2
  | n + 1, .panic msg =>
    kernelPanic dbg font kernelPanicFile m (raised n) (place stringFile elsewhere (.panic msg)).1
      (place stringFile elsewhere (.panic msg)).2 (cstr msg)
  | _ + 1, e => throw e

end Code

/-! ## What is logged -/

/-- A call of `_kernel_panic` or `_kernel_assert_fail`. -/
inductive Fault where
  | panic (file : CStr) (line : UInt64) (msg : CStr)
  | assertFail (expr file : CStr) (line : UInt64)

namespace Fault

/-- The message or the expression. -/
def text : Fault → CStr
  | panic _ _ msg => msg
  | assertFail expr _ _ => expr

def file : Fault → CStr
  | panic file _ _ => file
  | assertFail _ file _ => file

def line : Fault → UInt64
  | panic _ line _ => line
  | assertFail _ _ line => line

/-- What the first line has in front of the text. -/
def head : Fault → List UInt8
  | panic _ _ _ => ascii "Kernel panic! "
  | assertFail _ _ _ => ascii "Kernel assertion failure! Expression: "

/-- What the second line has between the file and the line number. -/
def mid : Fault → List UInt8
  | panic _ _ _ => ascii ", line:"
  | assertFail _ _ _ => ascii ", line: "

/-- What the second line has behind the line number. -/
def tail : Fault → List UInt8
  | panic _ _ _ => ascii " "
  | assertFail _ _ _ => []

/-- How its two lines stop. -/
def stop (f : Fault) : Option Stop :=
  (rowStop 256 0 (textRow f.head f.text)).or (rowStop 256 0 (placeRow (ascii "File: ") f.mid f.tail f.file f.line))

/-- Both strings have room in their lines. -/
def StringsFit (f : Fault) : Prop := f.head.length + f.text.chars.length < 256 ∧ 6 + f.file.chars.length < 256

instance (f : Fault) : Decidable f.StringsFit := inferInstanceAs (Decidable (_ ∧ _))

/-- So have both lines as a whole. -/
def Fits (f : Fault) : Prop :=
  f.head.length + f.text.chars.length < 256 ∧ 6 + f.file.chars.length + f.mid.length + (decimal f.line.toNat).length < 256

section Run

variable (dbg : Bool) (font : Nat → UInt8) (kernelPanicFile : Nat → UInt8) (stringFile : CStr)
    (elsewhere : Stop → CStr × UInt64) (m n : Nat)

/-- The call, with at most `n` failures nested in it. -/
def run : Fault → PanicM Unit
  | panic file line msg =>
      kernelPanic dbg font kernelPanicFile m (raised dbg font kernelPanicFile stringFile elsewhere m n) file line msg
  | assertFail expr file line =>
    kernelAssertFail dbg font kernelPanicFile m (raised dbg font kernelPanicFile stringFile elsewhere m n) expr file line

/-- The call gets to its halt loop, or to that of a failure nested in it. -/
def ReachesHalt (f : Fault) (s : PanicState) : Prop :=
  ∃ m n s', f.run dbg font kernelPanicFile stringFile elsewhere m n s = .ok () s'

end Run

/-- Either nothing fails, or the path of containers_string.c has room in the line about the failure. The line number of the check of
a string has two digits, the others have three. -/
def HaltOk (stringFile : CStr) (f : Fault) : Prop :=
  f.Fits ∨ stringFile.chars.length + 17 < 256 ∨ (stringFile.chars.length + 16 < 256 ∧ ¬ f.StringsFit)

end Fault

/-- `_file_strip` and `str_len` return on a path. -/
def StripReturns (dbg : Bool) (file : Nat → UInt8) : Prop := ∃ m, Exec.stops (fileText dbg file m []) = none

/-! ## Rows -/

theorem cstrOf_chars {l : List UInt8} (h : 0 ∉ l) : (cstrOf l).chars = l :=
  List.takeWhile_eq_self_iff.2 fun _ hc => decide_eq_true fun he => h (he ▸ hc)

/-- A line stops as its row does, once the text of its path is there. -/
theorem lineStop_row {dbg : Bool} {m : Nat} {file : Nat → UInt8} {format : CStr} {ps : List Piece} {args : List Arg}
    (hfile : Exec.stops (fileText dbg file m []) = none) (hps : ∀ p ∈ ps, p.Ok ∧ p.Simple) (hformat : format.chars = formatText ps)
    (hargs : args = formatArgs ps) (hlt : NoWrap 256 0 ps) : lineStop dbg m file format args = rowStop 256 0 ps := by
  have hstops := strBufMarshalFormatV_stops (s := stackBuf args) hps (by decide : 0 < 256) hargs hlt
  unfold lineStop
  rw [hfile, Option.none_or, ← hstops, hformat]
  unfold formatText256
  cases hrun : strBufMarshalFormatV 0 256 (formatText ps) (formatText ps).length (stackBuf args) with
  | ok len s => rw [Exec.bind_ok hrun, Exec.bind_ok (Exec.get_run s), Exec.pure_run, Exec.stops_ok, Exec.stops_ok]
  | error e s => rw [Exec.bind_error hrun, Exec.stops_error, Exec.stops_error]

theorem textRow_ok {a : List UInt8} (h : '%'.toUInt8 ∉ a) (arg : CStr) : ∀ p ∈ textRow a arg, p.Ok ∧ p.Simple :=
  List.forall_mem_append.2 ⟨lits_ok h, List.forall_mem_singleton.2 ⟨trivial, trivial⟩⟩

theorem lineStop_textRow {dbg : Bool} {m : Nat} {file : Nat → UInt8} {format : String} (a : List UInt8) (arg : CStr)
    (hfile : Exec.stops (fileText dbg file m []) = none) (hnul : 0 ∉ ascii format)
    (hformat : ascii format = a ++ ['%'.toUInt8, 's'.toUInt8])
    (ha : '%'.toUInt8 ∉ a) (hlen : a.length ≤ 256) :
    lineStop dbg m file (cstr format) [.str arg] = rowStop 256 0 (textRow a arg) := by
  refine lineStop_row hfile (textRow_ok ha arg) ?_ (formatArgs_textRow a arg).symm (textRow_noWrap (by decide) hlen)
  rw [formatText_textRow, ← hformat]
  exact cstrOf_chars hnul

theorem placeRow_ok {a b c : List UInt8} (ha : '%'.toUInt8 ∉ a) (hb : '%'.toUInt8 ∉ b) (hc : '%'.toUInt8 ∉ c)
    (arg : CStr) (val : UInt64) : ∀ p ∈ placeRow a b c arg val, p.Ok ∧ p.Simple :=
  List.forall_mem_append.2 ⟨lits_ok ha, List.forall_mem_cons.2 ⟨⟨trivial, trivial⟩,
    List.forall_mem_append.2 ⟨lits_ok hb, List.forall_mem_cons.2 ⟨⟨trivial, trivial⟩, lits_ok hc⟩⟩⟩⟩

theorem lineStop_placeRow {dbg : Bool} {m : Nat} {file : Nat → UInt8} {format : String} (a b c : List UInt8)
    (arg : CStr) (val : UInt64) (hfile : Exec.stops (fileText dbg file m []) = none) (hnul : 0 ∉ ascii format)
    (hformat : ascii format = a ++ '%'.toUInt8 :: 's'.toUInt8 :: (b ++ '%'.toUInt8 :: 'l'.toUInt8 :: 'u'.toUInt8 :: c))
    (hplain : '%'.toUInt8 ∉ a ∧ '%'.toUInt8 ∉ b ∧ '%'.toUInt8 ∉ c) (hlen : a.length ≤ 256 ∧ b.length < 2 ^ 32 ∧ c.length ≤ 1) :
    lineStop dbg m file (cstr format) [.str arg, .uint val] = rowStop 256 0 (placeRow a b c arg val) := by
  refine lineStop_row hfile (placeRow_ok hplain.1 hplain.2.1 hplain.2.2 arg val) ?_ (formatArgs_placeRow a b c arg val).symm
    (placeRow_noWrap (by decide) hlen.1 hlen.2.1 (by decide) hlen.2.2)
  rw [formatText_placeRow, ← hformat]
  exact cstrOf_chars hnul

/-! ## How a call ends -/

/-- The cursor of the log is on a screen that works. -/
def Good (s : PanicState) : Prop := Placed s.log ∧ Working s.log

/-- What follows, or what a failure raises. -/
def endIn (raise : Stop → PanicM Unit) (rest : PanicM Unit) : Option Stop → PanicM Unit
  | none => rest
  | some e => raise e

/-- From a good state, `x` comes to a good state from which `k` goes on. -/
def EndsAs (k x : PanicM Unit) : Prop := ∀ s, Good s → ∃ s', Good s' ∧ x s = k s'

theorem EndsAs.trans {k y x : PanicM Unit} (hx : EndsAs y x) (hy : EndsAs k y) : EndsAs k x := by
  intro s hs
  obtain ⟨s₁, hs₁, hrun⟩ := hx s hs
  obtain ⟨s₂, hs₂, hrun'⟩ := hy s₁ hs₁
  exact ⟨s₂, hs₂, hrun.trans hrun'⟩

/-- What is written to the text buffer is always written. -/
theorem EndsAs.screen {row : Nat} {k : PanicM Unit} {rest : Unit → PanicM Unit} (str : CStr) (hrow : row < screenHeight)
    (h : EndsAs k (rest ())) : EndsAs k (onScreen (screenWriteStr str row 0) >>= rest) := by
  intro s hs
  obtain ⟨b, hrun, -⟩ := draws_writeStr str hrow 0 s.vga
  have hon : onScreen (screenWriteStr str row 0) s = .ok () { s with vga := b } := Exec.zoom_ok hrun
  rw [Exec.bind_ok hon]
  exact h _ hs

theorem EndsAs.ln {line : Nat} {k : PanicM Unit} {rest : CStr → PanicM Unit} (hline : line < 2 ^ 64)
    (h : ∀ ln, EndsAs k (rest ln)) : EndsAs k (Exec.calls (lnStr line) (stackBuf []) >>= rest) := by
  have hlen : (decimal line).length ≤ 20 := decimal_length_le (by omega) (by omega)
  have hrun : ∃ ln t, lnStr line (stackBuf []) = .ok ln t := by
    unfold lnStr
    rw [Exec.bind_ok (unsignedToStr_run hline (by omega) (by omega) _)]
    exact ⟨_, _, rfl⟩
  obtain ⟨ln, t, hrun⟩ := hrun
  intro s hs
  rw [Exec.bind_ok (Exec.calls_ok hrun s)]
  exact h ln s hs

theorem EndsAs.orRaise {stop : Option Stop} {x : LogM Unit} (hx : Steady stop x) (raise : Stop → PanicM Unit) (rest : PanicM Unit) :
    EndsAs (endIn raise rest stop) (orRaise raise x rest) := by
  intro s hs
  obtain ⟨hstop, hplaced, hsame⟩ := hx s.log hs.1 hs.2
  unfold Kernel.orRaise onLog Exec.zoom
  cases hrun : x s.log with
  | ok a l =>
    rw [hrun] at hstop hplaced hsame
    rw [← hstop]
    exact ⟨{ s with log := l }, ⟨hplaced, hsame.working hs.2⟩, rfl⟩
  | error e l =>
    rw [hrun] at hstop hplaced hsame
    rw [← hstop]
    exact ⟨{ s with log := l }, ⟨hplaced, hsame.working hs.2⟩, rfl⟩

/-- The two lines of a call. -/
theorem EndsAs.lines {stop₁ stop₂ : Option Stop} {x y : LogM Unit} (hx : Steady stop₁ x) (hy : Steady stop₂ y)
    (raise : Stop → PanicM Unit) :
    EndsAs (endIn raise (pure ()) (stop₁.or stop₂)) (Kernel.orRaise raise x (Kernel.orRaise raise y (pure ()))) := by
  refine (EndsAs.orRaise hx raise _).trans ?_
  cases stop₁ with
  | some e => exact fun s hs => ⟨s, hs, rfl⟩
  | none => exact EndsAs.orRaise hy raise (pure ())

section Ends

variable {dbg : Bool} {font : Nat → UInt8} {kernelPanicFile : Nat → UInt8} {stringFile : CStr}
    {elsewhere : Stop → CStr × UInt64} {m n : Nat}

/-- How the call stops, by the lines it logs. -/
def Fault.lineStops (dbg : Bool) (kernelPanicFile : Nat → UInt8) (m : Nat) : Fault → Option Stop
  | .panic file line msg => (lineStop dbg m kernelPanicFile (cstr "Kernel panic! %s") [.str msg]).or
      (lineStop dbg m kernelPanicFile (cstr "File: %s, line:%lu ") [.str file, .uint line])
  | .assertFail expr file line => (lineStop dbg m kernelPanicFile (cstr "Kernel assertion failure! Expression: %s") [.str expr]).or
      (lineStop dbg m kernelPanicFile (cstr "File: %s, line: %lu") [.str file, .uint line])

theorem Fault.run_ends (f : Fault) : EndsAs (endIn (raised dbg font kernelPanicFile stringFile elsewhere m n) (pure ())
    (f.lineStops dbg kernelPanicFile m)) (f.run dbg font kernelPanicFile stringFile elsewhere m n) := by
  cases f with
  | panic file line msg =>
    refine .screen _ (by decide) <| .screen _ (by decide) <| .screen _ (by decide) <| .screen _ (by decide) <|
      .ln line.toNat_lt fun ln => .screen _ (by decide) ?_
    exact .lines (logLineFormatV_steady m dbg font _ _ _ _ _) (logLineFormatV_steady m dbg font _ _ _ _ _) _
  | assertFail expr file line =>
    refine .screen _ (by decide) <| .screen _ (by decide) <| .screen _ (by decide) <| .screen _ (by decide) <|
      .screen _ (by decide) <| .ln line.toNat_lt fun ln => .screen _ (by decide) <| .screen _ (by decide) ?_
    exact .lines (logLineFormatV_steady m dbg font _ _ _ _ _) (logLineFormatV_steady m dbg font _ _ _ _ _) _

/-- Once the text of the path of kernel_panic.c is there, a call stops as its rows do. -/
theorem Fault.lineStops_eq (h : Exec.stops (fileText dbg kernelPanicFile m []) = none) (f : Fault) :
    f.lineStops dbg kernelPanicFile m = f.stop := by
  cases f with
  | panic file line msg =>
    exact congrArg₂ Option.or (lineStop_textRow (ascii "Kernel panic! ") msg h (by decide) (by decide) (by decide) (by decide))
      (lineStop_placeRow (ascii "File: ") (ascii ", line:") (ascii " ") file line h (by decide) (by decide) (by decide) (by decide))
  | assertFail expr file line =>
    exact congrArg₂ Option.or
      (lineStop_textRow (ascii "Kernel assertion failure! Expression: ") expr h (by decide) (by decide) (by decide) (by decide))
      (lineStop_placeRow (ascii "File: ") (ascii ", line: ") [] file line h (by decide) (by decide) (by decide) (by decide))

theorem Fault.lineStops_hang (h : Exec.stops (fileText dbg kernelPanicFile m []) = some .hang) (f : Fault) :
    f.lineStops dbg kernelPanicFile m = some .hang := by
  have hline : ∀ format args, lineStop dbg m kernelPanicFile format args = some .hang := by
    intro format args
    unfold lineStop
    rw [h]
    rfl
  cases f with
  | panic file line msg => exact congrArg₂ Option.or (hline _ _) rfl
  | assertFail expr file line => exact congrArg₂ Option.or (hline _ _) rfl

end Ends

/-! ## Failures inside a panic -/

/-- The checks of containers_string.c that a line of a panic may fail. -/
inductive StringCheck where
  | str
  | digits
  | fin
deriving DecidableEq

namespace StringCheck

def expr : StringCheck → String
  | str => "(buf_len - buf_off) > str_len"
  | digits => "(buf_len - buf_off) > digit_cnt"
  | fin => "buf_ptr <= buf_len"

def line : StringCheck → UInt64
  | str => 63
  | digits => 138
  | fin => 246

def stop (c : StringCheck) : Stop := .assertFail c.expr

/-- The call of `_kernel_assert_fail` that it makes. -/
def fault (stringFile : CStr) (c : StringCheck) : Fault := .assertFail (cstr c.expr) stringFile c.line

/-- The path of containers_string.c has room in the line about it. -/
def Ends (stringFile : CStr) (c : StringCheck) : Prop := stringFile.chars.length + 14 + (decimal c.line.toNat).length < 256

theorem stringLine_expr (c : StringCheck) : stringLine c.expr = some c.line := by
  cases c <;> decide

theorem line_digits (c : StringCheck) : (decimal c.line.toNat).length = if c = str then 2 else 3 := by
  cases c <;> decide +kernel

theorem expr_length (c : StringCheck) : 38 + (cstr c.expr).chars.length < 256 := by
  cases c <;> decide +kernel

end StringCheck

/-- How a call stops, by the lengths of its strings. -/
theorem Fault.stop_eq (f : Fault) : f.stop =
    if f.StringsFit then
      if 6 + f.file.chars.length + f.mid.length ≤ 256 then
        if 6 + f.file.chars.length + f.mid.length + (decimal f.line.toNat).length < 256 then none else some StringCheck.digits.stop
      else some StringCheck.fin.stop
    else some StringCheck.str.stop := by
  have hhead : f.head.length ≤ 256 := by
    cases f with
    | panic => exact (by decide : (ascii "Kernel panic! ").length ≤ 256)
    | assertFail => exact (by decide : (ascii "Kernel assertion failure! Expression: ").length ≤ 256)
  have hmid : f.mid.length < 2 ^ 32 ∧ f.tail.length ≤ 1 := by
    cases f with
    | panic => exact (by decide : (ascii ", line:").length < 2 ^ 32 ∧ (ascii " ").length ≤ 1)
    | assertFail => exact (by decide : (ascii ", line: ").length < 2 ^ 32 ∧ ([] : List UInt8).length ≤ 1)
  have hfile : (ascii "File: ").length = 6 := by decide
  unfold Fault.stop
  rw [textRow_stop (by decide) hhead, placeRow_stop (by decide) (by decide) hmid.1 (by decide) hmid.2, hfile]
  by_cases htext : f.head.length + f.text.chars.length < 256
  · rw [if_pos htext, Option.none_or]
    by_cases hstr : 6 + f.file.chars.length < 256
    · rw [if_pos hstr, if_pos (show f.StringsFit from ⟨htext, hstr⟩)]
      rfl
    · rw [if_neg hstr, if_neg fun h : f.StringsFit => hstr h.2]
      rfl
  · rw [if_neg htext, if_neg fun h : f.StringsFit => htext h.1]
    rfl

theorem Fault.stop_eq_none_iff (f : Fault) : f.stop = none ↔ f.Fits := by
  rw [f.stop_eq]
  unfold Fault.Fits
  constructor
  · intro h
    split at h
    next hstr =>
      split at h
      next =>
        split at h
        next hfit => exact ⟨hstr.1, hfit⟩
        next => cases h
      next => cases h
    next => cases h
  · rintro ⟨htext, hplace⟩
    rw [if_pos (show f.StringsFit from ⟨htext, by omega⟩), if_pos (by omega), if_pos hplace]

/-- A call that stops does so at one of the three checks; at that of a string if a string has no room. -/
theorem Fault.stop_check {f : Fault} (h : ¬ f.Fits) : ∃ c : StringCheck, f.stop = some c.stop ∧
    (c = StringCheck.str ↔ ¬ f.StringsFit) := by
  have hne := mt f.stop_eq_none_iff.1 h
  rw [f.stop_eq] at hne ⊢
  split
  next hstr =>
    rw [if_pos hstr] at hne
    split
    next hmid =>
      rw [if_pos hmid] at hne
      split
      next hfit => exact absurd (if_pos hfit) hne
      next => exact ⟨.digits, rfl, nofun, fun h => absurd hstr h⟩
    next => exact ⟨.fin, rfl, nofun, fun h => absurd hstr h⟩
  next hstr => exact ⟨.str, rfl, fun _ => hstr, fun _ => rfl⟩

namespace StringCheck

variable {stringFile : CStr} {c : StringCheck}

/-- The text of a check has room. -/
theorem text_fits (stringFile : CStr) (c : StringCheck) :
    (c.fault stringFile).head.length + (c.fault stringFile).text.chars.length < 256 := by
  have hlen : (ascii "Kernel assertion failure! Expression: ").length = 38 := by decide
  show (ascii "Kernel assertion failure! Expression: ").length + (cstr c.expr).chars.length < 256
  rw [hlen]
  exact c.expr_length

theorem fits_iff (stringFile : CStr) (c : StringCheck) : (c.fault stringFile).Fits ↔ c.Ends stringFile := by
  have htext := c.text_fits stringFile
  have hlen : (ascii ", line: ").length = 8 := by decide
  have hplace : 6 + (c.fault stringFile).file.chars.length + (c.fault stringFile).mid.length +
      (decimal (c.fault stringFile).line.toNat).length = stringFile.chars.length + 14 + (decimal c.line.toNat).length := by
    show 6 + stringFile.chars.length + (ascii ", line: ").length + (decimal c.line.toNat).length = _
    omega
  unfold Fault.Fits Ends
  rw [hplace]
  exact and_iff_right htext

/-- A check whose line has no room for the path fails at a check of the same kind. -/
theorem stuck (h : ¬ c.Ends stringFile) : ∃ c' : StringCheck, (c.fault stringFile).stop = some c'.stop ∧ ¬ c'.Ends stringFile := by
  obtain ⟨c', hstop, hstr⟩ := Fault.stop_check (mt (fits_iff stringFile c).1 h)
  refine ⟨c', hstop, fun hends => h ?_⟩
  have hd := c.line_digits
  have hd' := c'.line_digits
  unfold Ends at hends ⊢
  by_cases hc : c' = .str
  · -- the path itself had no room
    have hfile : 6 + (c.fault stringFile).file.chars.length < 256 := by
      show 6 + stringFile.chars.length < 256
      omega
    exact absurd ⟨c.text_fits stringFile, hfile⟩ (hstr.1 hc)
  · rw [if_neg hc] at hd'
    split at hd <;> omega

theorem haltOk_iff {f : Fault} (hfit : ¬ f.Fits) (hstr : c = .str ↔ ¬ f.StringsFit) : f.HaltOk stringFile ↔ c.Ends stringFile := by
  have hd := c.line_digits
  unfold Fault.HaltOk Ends
  rw [or_iff_right hfit, ← hstr]
  split at hd
  next hc =>
    rw [and_iff_left hc]
    omega
  next hc =>
    rw [or_iff_left fun h => hc h.2]
    omega

end StringCheck

section Nesting

variable {dbg : Bool} {font : Nat → UInt8} {kernelPanicFile : Nat → UInt8} {stringFile : CStr}
    {elsewhere : Stop → CStr × UInt64} {m n : Nat} {s : PanicState} {c : StringCheck}

theorem raised_check : raised dbg font kernelPanicFile stringFile elsewhere m (n + 1) c.stop =
    (c.fault stringFile).run dbg font kernelPanicFile stringFile elsewhere m n := by
  have hplace : place stringFile elsewhere c.stop = (stringFile, c.line) := by
    show (match stringLine c.expr with | some line => (stringFile, line) | none => elsewhere (.assertFail c.expr)) = _
    rw [c.stringLine_expr]
  show kernelAssertFail dbg font kernelPanicFile m _ (cstr c.expr) (place stringFile elsewhere c.stop).1
    (place stringFile elsewhere c.stop).2 = _
  rw [hplace]
  rfl

variable (hfile : Exec.stops (fileText dbg kernelPanicFile m []) = none)
include hfile

theorem Fault.run_fits {f : Fault} (hfit : f.Fits) (hs : Good s) :
    ∃ s', f.run dbg font kernelPanicFile stringFile elsewhere m n s = .ok () s' := by
  obtain ⟨s', -, hrun⟩ := f.run_ends s hs
  rw [f.lineStops_eq hfile, f.stop_eq_none_iff.2 hfit] at hrun
  exact ⟨s', hrun⟩

theorem Fault.run_check {f : Fault} (hstop : f.stop = some c.stop) (hs : Good s) :
    ∃ s', Good s' ∧ f.run dbg font kernelPanicFile stringFile elsewhere m n s =
      raised dbg font kernelPanicFile stringFile elsewhere m n c.stop s' := by
  obtain ⟨s', hs', hrun⟩ := f.run_ends s hs
  rw [f.lineStops_eq hfile, hstop] at hrun
  exact ⟨s', hs', hrun⟩

/-- A check whose line has no room for the path nests without end. -/
theorem raised_stuck (h : ¬ c.Ends stringFile) (hs : Good s) (s' : PanicState) :
    raised dbg font kernelPanicFile stringFile elsewhere m n c.stop s ≠ .ok () s' := by
  induction n generalizing c s with
  | zero => exact nofun
  | succ n ih =>
    obtain ⟨c', hstop, hno⟩ := StringCheck.stuck h
    obtain ⟨s₁, hs₁, hrun⟩ := Fault.run_check hfile hstop hs
    rw [raised_check, hrun]
    exact ih hno hs₁

end Nesting

/-- The text of a path is there, or its loops go on for ever. -/
theorem fileText_stops (dbg : Bool) (file : Nat → UInt8) (m : Nat) :
    Exec.stops (fileText dbg file m []) = none ∨ Exec.stops (fileText dbg file m []) = some .hang := by
  have hlen : ∀ off n len reads, Exec.stops (strLenAt file off n len reads) = none ∨
      Exec.stops (strLenAt file off n len reads) = some .hang := by
    intro off n
    induction n with
    | zero => exact fun _ _ => .inr rfl
    | succ n ih =>
      intro len reads
      rw [strLenAt, Exec.bind_ok (readChar_run file _ reads)]
      split
      · exact ih _ _
      · exact .inl rfl
  have hstrip : Exec.stops (fileStrip dbg file m []) = none ∨ Exec.stops (fileStrip dbg file m []) = some .hang :=
    stripLoop_stops (Nat.zero_le 5) []
  unfold fileText
  cases hrun : fileStrip dbg file m [] with
  | error e reads =>
    rw [hrun] at hstrip
    rw [Exec.bind_error hrun]
    exact hstrip
  | ok off reads =>
    rw [Exec.bind_ok hrun]
    have hrest := hlen off m 0 reads
    cases hrun' : strLenAt file off m 0 reads with
    | error e reads' =>
      rw [hrun'] at hrest
      rw [Exec.bind_error hrun']
      exact hrest
    | ok len reads' =>
      rw [Exec.bind_ok hrun']
      exact .inl rfl

section Halt

variable {dbg : Bool} {font : Nat → UInt8} {kernelPanicFile : Nat → UInt8} {stringFile : CStr} {elsewhere : Stop → CStr × UInt64}
  {s : PanicState} {f : Fault}

theorem Fault.ReachesHalt.ok (h : f.ReachesHalt dbg font kernelPanicFile stringFile elsewhere s) (hs : Good s) :
    StripReturns dbg kernelPanicFile ∧ f.HaltOk stringFile := by
  obtain ⟨m, n, s', hrun⟩ := h
  rcases fileText_stops dbg kernelPanicFile m with hfile | hfile
  · refine ⟨⟨m, hfile⟩, ?_⟩
    by_cases hfit : f.Fits
    · exact .inl hfit
    obtain ⟨c, hstop, hstr⟩ := Fault.stop_check hfit
    obtain ⟨s₁, hs₁, hrun₁⟩ := Fault.run_check hfile hstop hs
    refine (StringCheck.haltOk_iff hfit hstr).2 (not_not.1 fun hends => ?_)
    exact raised_stuck hfile hends hs₁ s' (hrun₁.symm.trans hrun)
  · -- the first line never gets behind the path
    obtain ⟨s₁, -, hrun₁⟩ := f.run_ends s hs
    rw [hrun, f.lineStops_hang hfile] at hrun₁
    cases n <;> cases hrun₁

theorem Fault.HaltOk.reaches (h : f.HaltOk stringFile) (hret : StripReturns dbg kernelPanicFile) (hs : Good s) :
    f.ReachesHalt dbg font kernelPanicFile stringFile elsewhere s := by
  obtain ⟨m, hfile⟩ := hret
  by_cases hfit : f.Fits
  · obtain ⟨s', hrun⟩ := Fault.run_fits hfile hfit hs
    exact ⟨m, 0, s', hrun⟩
  obtain ⟨c, hstop, hstr⟩ := Fault.stop_check hfit
  have hends := (StringCheck.haltOk_iff hfit hstr).1 h
  obtain ⟨s₁, hs₁, hrun₁⟩ := Fault.run_check hfile hstop hs
  obtain ⟨s', hrun⟩ := Fault.run_fits hfile ((StringCheck.fits_iff stringFile c).2 hends) hs₁
  exact ⟨m, 1, s', hrun₁.trans ((congrFun raised_check s₁).trans hrun)⟩

/-- With a screen that works, a panic and a failed assertion reach the halt loop exactly if `_file_strip` returns on the path of
kernel_panic.c and either the two lines have room for their strings or the path of containers_string.c is short enough. -/
theorem panic_halts_iff (hplaced : Placed s.log) (hworking : Working s.log) (f : Fault) :
    f.ReachesHalt dbg font kernelPanicFile stringFile elsewhere s ↔ StripReturns dbg kernelPanicFile ∧ f.HaltOk stringFile :=
  ⟨fun h => h.ok ⟨hplaced, hworking⟩, fun h => h.2.reaches h.1 ⟨hplaced, hworking⟩⟩

end Halt

/-! A message of 300 characters, with the screen on. -/

def haltState₀ : PanicState := ⟨{ logState₀ with writeScreen := true, width := 640, height := 480, depth := 4 }, fun _ => 0⟩

theorem haltState₀_placed : Placed haltState₀.log :=
  ⟨by decide, by decide, Nat.zero_le _, .inl rfl, nofun⟩

theorem haltState₀_working : Working haltState₀.log := fun _ => (by decide : 16 ≤ 480)

def longFault : Fault := .panic (cstr "a.c") 1 (cstrOf (List.replicate 300 97))

/-- With a short path of containers_string.c it ends one failure deep. -/
theorem panic_halts_iff_nested :
    longFault.ReachesHalt true (fun _ => 0) path₀ (cstr "s.c") (fun _ => (cstr "", 0)) haltState₀ :=
  (panic_halts_iff haltState₀_placed haltState₀_working longFault).2 ⟨⟨2, by decide +kernel⟩, .inr (.inl (by decide +kernel))⟩

/-- With a path of 250 characters it does not end. -/
theorem panic_nests_forever :
    ¬ longFault.ReachesHalt true (fun _ => 0) path₀ (cstrOf (List.replicate 250 97)) (fun _ => (cstr "", 0)) haltState₀ := by
  intro h
  obtain ⟨-, hfit | hlen | hlen⟩ := h.ok ⟨haltState₀_placed, haltState₀_working⟩
  · exact absurd hfit.1 (by decide +kernel)
  · exact absurd hlen (by decide +kernel)
  · exact absurd hlen.1 (by decide +kernel)

end Kernel

end Cing
