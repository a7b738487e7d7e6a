/-
Logging to the screen over a whole boot: the cursor stays on the screen and every character is drawn inside it, whatever is logged
and in whatever order the screen is switched on and sized, as long as no line is logged to a screen that is on and has no row. Then
the end of the line divides by zero; and that is the screen between `log_enable_video_write` and `d_vesa_bootstrap`, where
`kernal_main` asserts.
-/
import Cing.Log.Model

namespace Cing.Log

open Str

/-! ## The cursor -/

/-- The cursor is on the screen, and so was every character. Column `video_char_col_max` is the end of a full row. -/
structure Placed (s : LogState) : Prop where
  width : s.width < 2 ^ 32
  height : s.height < 2 ^ 32
  col : s.screenCol ≤ videoCharColMax s
  row : s.screenRow = 0 ∨ s.screenRow < videoCharRowMax s
  draws : ∀ d ∈ s.draws, d.row < d.rowMax ∧ d.col < d.colMax

/-- The screen has a row if it is on. -/
def Working (s : LogState) : Prop := s.writeScreen = true → 16 ≤ s.height

/-- Nothing that sizes the screen or switches it on happened. -/
structure SameSetup (s s' : LogState) : Prop where
  width : s'.width = s.width
  height : s'.height = s.height
  writeScreen : s'.writeScreen = s.writeScreen

theorem SameSetup.refl (s : LogState) : SameSetup s s := ⟨rfl, rfl, rfl⟩

theorem SameSetup.trans {s s' s'' : LogState} (h : SameSetup s s') (h' : SameSetup s' s'') : SameSetup s s'' :=
  ⟨h'.width.trans h.width, h'.height.trans h.height, h'.writeScreen.trans h.writeScreen⟩

theorem SameSetup.working {s s' : LogState} (h : SameSetup s s') (hw : Working s) : Working s' := by
  intro hon
  rw [h.height]
  exact hw (h.writeScreen ▸ hon)

theorem SameSetup.unsized {s s' : LogState} (h : SameSetup s s') (hsize : s.width = 0 ∧ s.height = 0) :
    s'.width = 0 ∧ s'.height = 0 :=
  ⟨h.width.trans hsize.1, h.height.trans hsize.2⟩

/-- From a cursor on a screen that works, the code ends as `stop` says, and leaves the cursor on the same screen. -/
def Steady {α : Type} (stop : Option Stop) (x : LogM α) : Prop :=
  ∀ s, Placed s → Working s → Exec.stops (x s) = stop ∧ Placed (Exec.final (x s)) ∧ SameSetup s (Exec.final (x s))

section Steady

variable {α β : Type} {stop : Option Stop}

theorem Steady.bind {first : Option Stop} {x : LogM α} {f : α → LogM β} (hx : Steady first x) (hf : ∀ a, Steady stop (f a)) :
    Steady (first.or stop) (x >>= f) := by
  intro s hs hw
  obtain ⟨hstop, hplaced, hsame⟩ := hx s hs hw
  cases hrun : x s with
  | error e s' =>
    rw [hrun] at hstop hplaced hsame
    rw [Exec.bind_error hrun, ← hstop]
    exact ⟨rfl, hplaced, hsame⟩
  | ok a s' =>
    rw [hrun] at hstop hplaced hsame
    obtain ⟨hstop', hplaced', hsame'⟩ := hf a s' hplaced (hsame.working hw)
    rw [Exec.bind_ok hrun, ← hstop]
    exact ⟨hstop', hplaced', hsame.trans hsame'⟩

/-- A text made on the stack comes first: what follows gets the text, or the code stops as the text does. -/
theorem Steady.text {τ : Type} {x : EStateM Stop τ α} {t : τ} {f : α → LogM β} (hf : ∀ a, Steady stop (f a)) :
    Steady ((Exec.stops (x t)).or stop) (Exec.calls x t >>= f) := by
  intro s hs hw
  cases hrun : x t with
  | ok a t' =>
    rw [Exec.bind_ok (Exec.calls_ok hrun s)]
    exact hf a s hs hw
  | error e t' =>
    rw [Exec.bind_error (Exec.calls_error hrun s)]
    exact ⟨rfl, hs, .refl s⟩

end Steady

/-! ## Drawing -/

variable {s : LogState} {row col n : Nat} {ch : UInt8} (dbg : Bool) (font : Nat → UInt8)

theorem dVesaDrawPixel_run {x y : Nat} (hx : x < s.width) (hy : y < s.height) (red green blue : UInt8) :
    ∃ v, dVesaDrawPixel x y red green blue s = .ok () { s with video := v } := by
  unfold dVesaDrawPixel
  rw [Exec.bind_ok (Exec.get_run s), Exec.bind_ok (kernelAssert_pos hx _ s), Exec.bind_ok (kernelAssert_pos hy _ s)]
  exact ⟨_, rfl⟩

theorem pixelLoop_run {ln : Nat} (hcol : col < videoCharColMax s) (hy : row * 16 + ln < s.height) (hn : n ≤ 8) :
    ∃ v, pixelLoop font row col ch ln n s = .ok () { s with video := v } := by
  unfold videoCharColMax at hcol
  induction n with
  | zero => exact ⟨s.video, rfl⟩
  | succ n ih =>
    obtain ⟨v, hrun⟩ := ih (by omega)
    rw [pixelLoop, Exec.bind_ok hrun]
    split
    · have hx : col * 8 + n < s.width := by omega
      exact dVesaDrawPixel_run (s := { s with video := v }) hx hy 255 255 255
    · exact ⟨v, rfl⟩

theorem lineLoop_run (hrow : row < videoCharRowMax s) (hcol : col < videoCharColMax s) (hn : n ≤ 16) :
    ∃ v, lineLoop font row col ch n s = .ok () { s with video := v } := by
  have hrow' : row * 16 + 16 ≤ s.height := by
    unfold videoCharRowMax at hrow
    omega
  induction n with
  | zero => exact ⟨s.video, rfl⟩
  | succ n ih =>
    obtain ⟨v, hrun⟩ := ih (by omega)
    have hy : row * 16 + n < s.height := by omega
    rw [lineLoop, Exec.bind_ok hrun]
    exact pixelLoop_run (s := { s with video := v }) font hcol hy le_rfl

/-- A character on the screen is drawn, whatever it is. -/
theorem videoDrawChar_run (hrow : row < videoCharRowMax s) (hcol : col < videoCharColMax s) (ch : UInt8) :
    ∃ v, videoDrawChar font row col ch s =
      .ok () { s with video := v, draws := ⟨row, col, videoCharRowMax s, videoCharColMax s⟩ :: s.draws } := by
  unfold videoDrawChar
  rw [Exec.bind_ok (Exec.get_run s), Exec.bind_ok (Exec.set_run s _), Exec.bind_ok (kernelAssert_pos hrow _ _),
    Exec.bind_ok (kernelAssert_pos hcol _ _)]
  exact lineLoop_run (s := { s with draws := ⟨row, col, videoCharRowMax s, videoCharColMax s⟩ :: s.draws }) font hrow hcol le_rfl

/-- The characters that fit are drawn one behind the other. -/
theorem drawLoop_run (h : Placed s) (hrow : s.screenRow < videoCharRowMax s) (str : List UInt8)
    (hn : s.screenCol + n ≤ videoCharColMax s) : ∃ v ds, drawLoop font str n s =
      .ok () { s with screenCol := s.screenCol + n, video := v, draws := ds } ∧ ∀ d ∈ ds, d.row < d.rowMax ∧ d.col < d.colMax := by
  have hmax : videoCharColMax s < 2 ^ 64 := by
    have := h.width
    unfold videoCharColMax
    omega
  induction n with
  | zero => exact ⟨s.video, s.draws, rfl, h.draws⟩
  | succ n ih =>
    obtain ⟨v, ds, hrun, hds⟩ := ih (by omega)
    have hcol : s.screenCol + n < videoCharColMax s := by omega
    rw [drawLoop, Exec.bind_ok hrun, Exec.bind_ok (Exec.get_run _), Exec.bind_ok (Exec.set_run _ _),
      u64_of_lt (by omega : s.screenCol + n + 1 < 2 ^ 64)]
    obtain ⟨v', hdraw⟩ := videoDrawChar_run
      (s := { s with screenCol := s.screenCol + n + 1, video := v, draws := ds }) font hrow hcol
      (charAt str n)
    exact ⟨v', _, hdraw, List.forall_mem_cons.2 ⟨⟨hrow, hcol⟩, hds⟩⟩

theorem serialWriteStr_steady (str : List UInt8) : Steady none (serialWriteStr str) :=
  fun _ hs _ => ⟨rfl, ⟨hs.width, hs.height, hs.col, hs.row, hs.draws⟩, rfl, rfl, rfl⟩

theorem Placed.row_lt (h : Placed s) (hheight : 16 ≤ s.height) : s.screenRow < videoCharRowMax s := by
  rcases h.row with h0 | hlt
  · rw [h0]
    unfold videoCharRowMax
    omega
  · exact hlt

theorem logStrLen_steady (str : List UInt8) : Steady none (logStrLen dbg font str) := by
  unfold logStrLen
  refine (serialWriteStr_steady str).bind fun _ s hs hw => ?_
  rw [Exec.bind_ok (Exec.get_run s)]
  cases hon : s.writeScreen with
  | false => exact ⟨rfl, hs, .refl s⟩
  | true =>
    have hcol := hs.col
    have hwidth := hs.width
    have hmax : videoCharColMax s ≤ s.width := Nat.div_le_self _ _
    rw [if_pos rfl, Exec.bind_ok (kernelAssertD_pos hcol dbg _ s), u64Sub_of_le hcol (by omega)]
    have hfits : s.screenCol + (if videoCharColMax s - s.screenCol < str.length then videoCharColMax s - s.screenCol
      else str.length) ≤
        videoCharColMax s := by
      split <;> omega
    obtain ⟨v, ds, hrun, hds⟩ := drawLoop_run font hs (hs.row_lt (hw hon)) str hfits
    rw [hrun]
    exact ⟨rfl, ⟨hs.width, hs.height, hfits, hs.row, hds⟩, rfl, rfl, rfl⟩

theorem logLineEnd_steady : Steady none logLineEnd := by
  unfold logLineEnd
  intro s hs hw
  rw [Exec.bind_ok (Exec.get_run s)]
  cases hon : s.writeScreen with
  | false =>
    rw [if_neg Bool.false_ne_true, Exec.bind_ok (Exec.pure_run () s)]
    exact serialWriteStr_steady _ s hs hw
  | true =>
    have hheight := hw hon
    have hpos : 0 < videoCharRowMax s := by
      unfold videoCharRowMax
      omega
    rw [if_pos rfl, if_neg hpos.ne', Exec.bind_ok (Exec.set_run s _)]
    exact ⟨rfl, ⟨hs.width, hs.height, Nat.zero_le _, .inr (Nat.mod_lt _ hpos), hs.draws⟩, rfl, rfl, hon.symm⟩

theorem uintText_run {uval : Nat} (h : uval < 2 ^ 64) : ∃ s', uintText uval (stackBuf []) = .ok (decimal uval) s' := by
  have hlen : (decimal uval).length ≤ 20 := decimal_length_le (by omega) (by omega)
  unfold uintText
  rw [Exec.bind_ok (strBufMarshalUint_run h (by omega) (by omega) _), Exec.bind_ok (Exec.get_run _)]
  refine ⟨_, congrArg (EStateM.Result.ok · _) (List.ext_getElem (by simp) fun i h1 h2 => ?_)⟩
  rw [List.getElem_map, List.getElem_range]
  have hput := Bytes.splice_inside (m := fun _ => 0) (a := 0) h2
  rwa [Nat.zero_add] at hput

theorem logUint_steady {uval : Nat} (h : uval < 2 ^ 64) : Steady none (logUint dbg font uval) := by
  obtain ⟨s', hrun⟩ := uintText_run h
  have htext := Steady.text (x := uintText uval) (t := stackBuf []) (logStrLen_steady dbg font)
  rwa [hrun] at htext

/-! ## Lines -/

variable (n)

/-- A line ends early only where the text of its path does. -/
theorem logLineStart_steady (lv : LogLevel) (file : Nat → UInt8) (line : UInt64) :
    Steady (Exec.stops (fileText dbg file n [])) (logLineStart dbg font lv file line n) := by
  have hrest : ∀ path, Steady none (do
      logStrLen dbg font path
      logStrLen dbg font (ascii ":")
      logUint dbg font line.toNat
      logStrLen dbg font (ascii " ")) := fun path =>
    (logStrLen_steady dbg font path).bind fun _ => (logStrLen_steady dbg font _).bind fun _ =>
      (logUint_steady dbg font line.toNat_lt).bind fun _ => logStrLen_steady dbg font _
  have htext := Steady.text (x := fileText dbg file n) (t := []) hrest
  rw [Option.or_none] at htext
  exact (logStrLen_steady dbg font _).bind fun _ => (logStrLen_steady dbg font _).bind fun _ => htext

/-- Where the text of a line stops, if it does. -/
def lineStop (dbg : Bool) (n : Nat) (file : Nat → UInt8) (format : CStr) (args : List Arg) : Option Stop :=
  (Exec.stops (fileText dbg file n [])).or (Exec.stops (formatText256 format.chars (stackBuf args)))

theorem logLineFormatV_steady (lv : LogLevel) (file : Nat → UInt8) (line : UInt64) (format : CStr) (args : List Arg) :
    Steady (lineStop dbg n file format args) (logLineFormatV dbg font lv file line format args n) := by
  have hrest : ∀ buf, Steady none (do
      logStrLen dbg font buf
      logLineEnd) := fun buf => (logStrLen_steady dbg font buf).bind fun _ => logLineEnd_steady
  have htext := Steady.text (x := formatText256 format.chars) (t := stackBuf args) hrest
  rw [Option.or_none] at htext
  exact (logLineStart_steady n dbg font lv file line).bind fun _ => htext

theorem logBuiltinTestPass_steady (testName : CStr) (file : Nat → UInt8) (line : UInt64) :
    Steady (Exec.stops (fileText dbg file n [])) (logBuiltinTestPass dbg font testName file line n) := by
  have hpass := (logLineStart_steady n dbg font .selfTest file line).bind fun _ =>
      (logStrLen_steady dbg font testName.chars).bind fun _ =>
    (logStrLen_steady dbg font (ascii " .. Passed.")).bind fun _ => logLineEnd_steady
  rwa [Option.none_or, Option.none_or, Option.or_none] at hpass

/-! ## Texts divide by no zero -/

theorem readChar_avoids (file : Nat → UInt8) (idx : Nat) : Exec.Avoids .divideError (readChar file idx) :=
  .bind (.modify _) fun _ => .pure _

theorem stripSwitch_avoids (ch : UInt8) (idx res score : Nat) : Exec.Avoids .divideError (stripSwitch ch idx res score) := by
  unfold stripSwitch
  split
  all_goals first | exact .pure _ | exact .throw nofun

theorem stripLoop_avoids (file : Nat → UInt8) :
    ∀ n idx score res, Exec.Avoids .divideError (stripLoop dbg file n idx score res) := by
  intro n
  induction n with
  | zero => exact fun _ _ _ => .throw nofun
  | succ n ih =>
    intro idx score res
    refine .bind (readChar_avoids file idx) fun ch =>
      .ite (.pure _) (.bind (stripSwitch_avoids _ _ _ _) fun r => .bind ?_ fun _ => ?_)
    · exact .ite (kernelAssert_avoids nofun) (.pure _)
    · exact .ite (.pure _) (ih _ _ _)

theorem strLenAt_avoids (file : Nat → UInt8) (off : Nat) : ∀ n len, Exec.Avoids .divideError (strLenAt file off n len) := by
  intro n
  induction n with
  | zero => exact fun _ => .throw nofun
  | succ n ih => exact fun len => .bind (readChar_avoids _ _) fun _ => .ite (ih _) (.pure _)

theorem fileText_avoids (file : Nat → UInt8) : Exec.Avoids .divideError (fileText dbg file n) :=
  .bind (stripLoop_avoids dbg file n 0 0 0) fun _ => .bind (strLenAt_avoids file _ n 0) fun _ => .pure _

theorem bufPut_avoids (i : Nat) (ch : UInt8) : Exec.Avoids .divideError (bufPut i ch) := .modify _

theorem vaArgStr_avoids : Exec.Avoids .divideError vaArgStr := fun s => by
  rcases vaArgStr_cases s with ⟨str, va, hva⟩ | hstop
  · rw [vaArgStr_run hva]
    exact nofun
  · rw [hstop]
    exact nofun

theorem vaArgUint_avoids : Exec.Avoids .divideError vaArgUint := fun s => by
  rcases vaArgUint_cases s with ⟨val, va, hva⟩ | hstop
  · rw [vaArgUint_run hva]
    exact nofun
  · rw [hstop]
    exact nofun

theorem marshalStrLoop_avoids (bufOff : Nat) (str : List UInt8) (n : Nat) :
    Exec.Avoids .divideError (marshalStrLoop bufOff str n) := by
  induction n with
  | zero => exact .pure ()
  | succ n ih => exact .bind ih fun _ => bufPut_avoids _ _

theorem strBufMarshalStr_avoids (bufOff bufLen : Nat) (str : List UInt8) (strLen : Nat) :
    Exec.Avoids .divideError (strBufMarshalStr bufOff bufLen str strLen) :=
  .bind (kernelAssert_avoids nofun) fun _ => .bind (marshalStrLoop_avoids _ _ _) fun _ => .pure _

theorem marshalUintLoop_avoids : ∀ n bufOffPro valPro, Exec.Avoids .divideError (marshalUintLoop n bufOffPro valPro) := by
  intro n
  induction n with
  | zero => exact fun _ _ => .throw nofun
  | succ n ih => exact fun _ _ => .bind (bufPut_avoids _ _) fun _ => .ite (.pure _) (ih _ _)

theorem strBufMarshalUint_avoids (bufOff bufLen val : Nat) : Exec.Avoids .divideError (strBufMarshalUint bufOff bufLen val) :=
  .bind (kernelAssert_avoids nofun) fun _ => .bind (marshalUintLoop_avoids _ _ _) fun _ =>
    .bind (kernelAssert_avoids nofun) fun _ => .pure _

theorem precisionLoop_avoids (bufLen : Nat) (str : List UInt8) :
    ∀ n strPtr bufPtr, Exec.Avoids .divideError (precisionLoop bufLen str n strPtr bufPtr) := by
  intro n
  induction n with
  | zero => exact fun _ _ => .pure _
  | succ n ih =>
    exact fun _ _ => .ite (.pure _) (.bind (kernelAssert_avoids nofun) fun _ => .bind (bufPut_avoids _ _) fun _ => ih _ _)

theorem formatRound_avoids (bufLen : Nat) (format : List UInt8) (formatLen formatPtr bufPtr : Nat) :
    Exec.Avoids .divideError (formatRound bufLen format formatLen formatPtr bufPtr) := by
  have huint : Exec.Avoids .divideError (do
      let uval ← vaArgUint
      let len ← strBufMarshalUint bufPtr bufLen uval
      return (formatPtr + 2, u64 (bufPtr + len))) :=
    .bind vaArgUint_avoids fun _ => .bind (strBufMarshalUint_avoids _ _ _) fun _ => .pure _
  refine .ite (.bind (bufPut_avoids _ _) fun _ => .pure _)
    (.ite (.bind (bufPut_avoids _ _) fun _ => .pure _) (.ite ?_ (.ite ?_ (.ite ?_ ?_))))
  · exact .bind vaArgStr_avoids fun _ => .bind (strBufMarshalStr_avoids _ _ _ _) fun _ => .pure _
  · exact .ite huint (.throw nofun)
  · refine .bind (.bind (kernelAssert_avoids nofun) fun _ => .pure _) fun _ => .bind vaArgStr_avoids fun _ => ?_
    exact .bind (precisionLoop_avoids _ _ _ _ _) fun _ => .pure _
  · exact .throw nofun

theorem formatLoop_avoids (bufLen : Nat) (format : List UInt8) (formatLen : Nat) :
    ∀ n formatPtr bufPtr, Exec.Avoids .divideError (formatLoop bufLen format formatLen n formatPtr bufPtr) := by
  intro n
  induction n with
  | zero => exact fun _ _ => .throw nofun
  | succ n ih => exact fun _ _ => .ite (.bind (formatRound_avoids _ _ _ _ _) fun _ => ih _ _) (.pure _)

theorem formatText256_avoids (format : List UInt8) : Exec.Avoids .divideError (formatText256 format) :=
  .bind (.bind (kernelAssert_avoids nofun) fun _ => .bind (formatLoop_avoids _ _ _ _ _ _) fun _ =>
    .bind (kernelAssert_avoids nofun) fun _ => .pure _) fun _ => .get fun _ => .pure _

theorem lineStop_ne (file : Nat → UInt8) (format : CStr) (args : List Arg) :
    lineStop dbg n file format args ≠ some .divideError := by
  unfold lineStop
  cases hstop : Exec.stops (fileText dbg file n []) with
  | none => exact formatText256_avoids _ _
  | some e =>
    have := fileText_avoids n dbg file []
    rwa [hstop] at this

/-! ## A boot -/

/-- What happens during a boot, as far as the screen is concerned. -/
inductive LogEvent where
  | enable
  | vesa (info : FrameBufferInfo) (fbLen : Nat) (file : Nat → UInt8)
  | line (lv : LogLevel) (file : Nat → UInt8) (line : UInt64) (format : CStr) (args : List Arg)
  | testPass (testName : CStr) (file : Nat → UInt8) (line : UInt64)

/-- The code that an event runs. -/
def perform : LogEvent → LogM Unit
  | .enable => logEnableVideoWrite
  | .vesa info fbLen file => dVesaBootstrap dbg font info fbLen file n
  | .line lv file line format args => logLineFormatV dbg font lv file line format args n
  | .testPass testName file line => logBuiltinTestPass dbg font testName file line n

/-- The info that the assertions of `d_vesa_bootstrap` accept. -/
structure FrameBufferInfo.Accepted (info : FrameBufferInfo) (fbLen : Nat) : Prop where
  colourType : info.colourType = 1
  depth : info.depth = 32
  reserved : info.reserved = 0
  len : fbLen = 30

/-- `d_vesa_bootstrap` comes once at most, with an info that it accepts. -/
def LogEvent.Allowed (sized : Bool) : LogEvent → Prop
  | .vesa info fbLen _ => sized = false ∧ info.Accepted fbLen
  | _ => True

def LogEvent.sizes : LogEvent → Bool
  | .vesa _ _ _ => true
  | _ => false

/-- Before the first call: the cursor in the corner of a screen that is off and has no size. -/
structure LogStart (s : LogState) : Prop where
  row : s.screenRow = 0
  col : s.screenCol = 0
  writeScreen : s.writeScreen = false
  width : s.width = 0
  height : s.height = 0
  draws : s.draws = []

/-- The states of a boot whose steps all meet a condition, and whether the screen has its size. A call that stops is followed by the
lines of the panic. -/
inductive Boot (C : LogState → LogEvent → Prop) : Bool → LogState → Prop
  | start {s : LogState} : LogStart s → Boot C false s
  | step {sized : Bool} {s : LogState} (e : LogEvent) : Boot C sized s → e.Allowed sized → C s e →
    Boot C (sized || e.sizes) (Exec.final (perform n dbg font e s))

/-- No line goes to a screen that is on and has no row. The line of `d_vesa_bootstrap` has the size that it sets. -/
def LineOk (s : LogState) : LogEvent → Prop
  | .enable => True
  | .vesa info _ _ => s.writeScreen = true → 16 ≤ info.height.toNat
  | _ => s.writeScreen = true → 16 ≤ s.height

/-- The cursor and the characters are on the screen, and no next call divides by zero. -/
structure ScreenSafe (C : LogState → LogEvent → Prop) (sized : Bool) (s : LogState) : Prop where
  col : s.screenCol ≤ videoCharColMax s
  draws : ∀ d ∈ s.draws, d.row < d.rowMax ∧ d.col < d.colMax
  divides : ∀ e : LogEvent, e.Allowed sized → C s e → Exec.stops (perform n dbg font e s) ≠ some .divideError

theorem FrameBufferInfo.Accepted.bootstrap {info : FrameBufferInfo} {fbLen : Nat} (h : info.Accepted fbLen) (file : Nat → UInt8)
    (s : LogState) : dVesaBootstrap dbg font info fbLen file n s =
      logLineFormatV dbg font .info file 82 ⟨ascii "Frame buffer: %lux%lu, %lu, pa: %lu", by decide⟩
        [.uint info.width.toUInt64, .uint info.height.toUInt64, .uint (info.depth / 8).toUInt64, .uint info.paddr] n
        { s with
          buf := info.paddr.toNat, width := info.width.toNat, height := info.height.toNat, depth := info.depth.toNat / 8 } := by
  unfold dVesaBootstrap
  rw [Exec.bind_ok (kernelAssert_pos h.colourType _ s), Exec.bind_ok (kernelAssert_pos h.depth _ s),
    Exec.bind_ok (kernelAssert_pos h.reserved _ s), Exec.bind_ok (kernelAssert_pos h.len _ s), Exec.bind_ok (Exec.modify_run _ s),
    Exec.bind_ok (kernelAssert_pos (by rw [h.depth]; decide) _ _), Exec.bind_ok (Exec.modify_run _ _)]

/-- The cursor of a screen without size is in the corner, so a screen that gets its size has it. -/
theorem Placed.sized (hs : Placed s) (hsize : s.width = 0 ∧ s.height = 0) (info : FrameBufferInfo) (depth : Nat) :
    Placed { s with buf := info.paddr.toNat, width := info.width.toNat, height := info.height.toNat, depth := depth } := by
  obtain ⟨hwidth, hheight⟩ := hsize
  have hcol : s.screenCol = 0 := by
    have := hs.col
    unfold videoCharColMax at this
    omega
  have hrow : s.screenRow = 0 := by
    have := hs.row
    unfold videoCharRowMax at this
    omega
  refine ⟨info.width.toNat_lt, info.height.toNat_lt, ?_, .inl hrow, hs.draws⟩
  show s.screenCol ≤ _
  rw [hcol]
  exact Nat.zero_le _

/-- One step: it does not divide by zero, and the cursor stays on the screen. -/
theorem perform_steady {sized : Bool} {e : LogEvent} (hs : Placed s) (hsize : sized = false → s.width = 0 ∧ s.height = 0)
    (he : e.Allowed sized) (hok : LineOk s e) :
    Exec.stops (perform n dbg font e s) ≠ some .divideError ∧ Placed (Exec.final (perform n dbg font e s)) ∧
      ((sized || e.sizes) = false → (Exec.final (perform n dbg font e s)).width = 0 ∧
        (Exec.final (perform n dbg font e s)).height = 0) := by
  cases e with
  | enable => exact ⟨nofun, ⟨hs.width, hs.height, hs.col, hs.row, hs.draws⟩, fun h => hsize (Bool.or_eq_false_iff.1 h).1⟩
  | vesa info fbLen file =>
    obtain ⟨hsized, hacc⟩ := he
    have hplaced := hs.sized (hsize hsized) info (info.depth.toNat / 8)
    show Exec.stops (dVesaBootstrap dbg font info fbLen file n s) ≠ _ ∧
      Placed (Exec.final (dVesaBootstrap dbg font info fbLen file n s)) ∧ _
    rw [hacc.bootstrap n dbg font file s]
    obtain ⟨hstop, hplaced', -⟩ :=
      logLineFormatV_steady n dbg font .info file 82 ⟨ascii "Frame buffer: %lux%lu, %lu, pa: %lu", by decide⟩
      [.uint info.width.toUInt64, .uint info.height.toUInt64, .uint (info.depth / 8).toUInt64, .uint info.paddr] _ hplaced hok
    exact ⟨hstop ▸ lineStop_ne n dbg file _ _, hplaced', fun h => absurd (Bool.or_eq_false_iff.1 h).2 nofun⟩
  | line lv file line format args =>
    obtain ⟨hstop, hplaced, hsame⟩ := logLineFormatV_steady n dbg font lv file line format args s hs hok
    refine ⟨fun h => lineStop_ne n dbg file format args (hstop.symm.trans h), hplaced, fun h => ?_⟩
    exact hsame.unsized (hsize (Bool.or_eq_false_iff.1 h).1)
  | testPass testName file line =>
    obtain ⟨hstop, hplaced, hsame⟩ := logBuiltinTestPass_steady n dbg font testName file line s hs hok
    refine ⟨fun h => fileText_avoids n dbg file [] (hstop.symm.trans h), hplaced, fun h => ?_⟩
    exact hsame.unsized (hsize (Bool.or_eq_false_iff.1 h).1)

theorem Boot.placed {sized : Bool} (h : Boot n dbg font LineOk sized s) : Placed s ∧
    (sized = false → s.width = 0 ∧ s.height = 0) := by
  induction h with
  | start h =>
    refine ⟨⟨?_, ?_, ?_, .inl h.row, ?_⟩, fun _ => ⟨h.width, h.height⟩⟩
    · rw [h.width]
      decide
    · rw [h.height]
      decide
    · rw [h.col]
      exact Nat.zero_le _
    · rw [h.draws]
      exact nofun
  | step e _ he hok ih => exact (perform_steady n dbg font ih.1 ih.2 he hok).2

/-- In every boot in which no line goes to a screen that is on and has no row, the screen is safe in every state, whatever is logged
and in whatever order the screen is switched on and gets its size. -/
theorem screen_logging_safe {sized : Bool} (h : Boot n dbg font LineOk sized s) : ScreenSafe n dbg font LineOk sized s := by
  obtain ⟨hs, hsize⟩ := h.placed
  exact ⟨hs.col, hs.draws, fun e he hok => (perform_steady n dbg font hs hsize he hok).1⟩

/-! A boot with one line. The path of its file is `0`, and the font is empty. -/

def logState₀ : LogState := ⟨0, 0, false, 0xB8000, 0, 0, 0, fun _ => 0, [], []⟩

theorem logState₀_start : LogStart logState₀ := ⟨rfl, rfl, rfl, rfl, rfl, rfl⟩

def path₀ : Nat → UInt8 := fileOf (ascii "0")

def line₀ : LogEvent := .line .info path₀ 1 ⟨[], nofun⟩ []

/-- A screen of 640 by 480 pixels. -/
def vesa₀ : LogEvent := .vesa ⟨0xFD000000, 640, 480, 32, 1, 0⟩ 30 path₀

def step₀ (e : LogEvent) (s : LogState) : LogState := Exec.final (perform 2 true (fun _ => 0) e s)

theorem screen_logging_safe_line : (step₀ line₀ (step₀ .enable (step₀ vesa₀ logState₀))).screenRow = 1 ∧
    ScreenSafe 2 true (fun _ => 0) LineOk true (step₀ line₀ (step₀ .enable (step₀ vesa₀ logState₀))) := by
  have hsized : Boot 2 true (fun _ => 0) LineOk true (step₀ vesa₀ logState₀) :=
    .step vesa₀ (.start logState₀_start) ⟨rfl, rfl, rfl, rfl, rfl⟩ nofun
  have hon : Boot 2 true (fun _ => 0) LineOk true (step₀ .enable (step₀ vesa₀ logState₀)) := .step .enable hsized trivial trivial
  exact ⟨by decide +kernel, screen_logging_safe 2 true (fun _ => 0) (.step line₀ hon trivial fun _ => by decide +kernel)⟩

/-- Between `log_enable_video_write` and `d_vesa_bootstrap` a line divides by zero. -/
theorem screen_logging_divides : Boot 2 true (fun _ => 0) (fun _ _ => True) false (step₀ .enable logState₀) ∧
    ¬ ScreenSafe 2 true (fun _ => 0) (fun _ _ => True) false (step₀ .enable logState₀) := by
  refine ⟨.step .enable (.start logState₀_start) trivial trivial, fun h => ?_⟩
  exact h.divides line₀ trivial trivial (by decide +kernel)

end Cing.Log
