/-
What the log sends to the serial port. A line goes there in full, whatever the screen has room for: its level with the NUL behind
it, the part of the path behind `/src/`, the number of the line, the text. A call that stops has sent a start of its line. While no
line goes to a screen that is on and has no row, none stops, and the port gets the lines of a boot one behind the other.
-/
import Cing.Log.Screen

namespace Cing.Log

open Str Search

/-! ## Sending -/

/-- The code adds a start of `text` to what was sent, and all of it if it returns. -/
def Tells {α : Type} (text : List UInt8) (x : LogM α) : Prop :=
  ∀ s, ∃ part, (Exec.final (x s)).serial = s.serial ++ part ∧ part <+: text ∧ (Exec.stops (x s) = none → part = text)

section Tells

variable {α β : Type} {text text' : List UInt8}

theorem Tells.bind {x : LogM α} {f : α → LogM β} (hx : Tells text x) (hf : ∀ a, Tells text' (f a)) :
    Tells (text ++ text') (x >>= f) := by
  intro s
  obtain ⟨part, hsent, hpart, hall⟩ := hx s
  cases hrun : x s with
  | error e s' =>
    rw [hrun] at hsent
    rw [Exec.bind_error hrun]
    exact ⟨part, hsent, hpart.trans (List.prefix_append text text'), fun h => absurd h (Option.some_ne_none e)⟩
  | ok a s' =>
    rw [hrun] at hsent hall
    obtain rfl := hall rfl
    obtain ⟨part', hsent', hpart', hall'⟩ := hf a s'
    rw [Exec.bind_ok hrun]
    refine ⟨part ++ part', ?_, (List.prefix_append_right_inj part).2 hpart', fun h => by rw [hall' h]⟩
    rw [hsent', show s'.serial = s.serial ++ part from hsent, List.append_assoc]

/-- Code that sends nothing. -/
theorem Tells.nothing {x : LogM α} (h : ∀ s, (Exec.final (x s)).serial = s.serial) : Tells [] x :=
  fun s => ⟨[], (h s).trans (List.append_nil _).symm, List.prefix_rfl, fun _ => rfl⟩

theorem Tells.pure (a : α) : Tells [] (pure a : LogM α) := .nothing fun _ => rfl

theorem Tells.throw (e : Stop) : Tells text (throw e : LogM α) :=
  fun s => ⟨[], (List.append_nil s.serial).symm, List.nil_prefix, fun h => absurd h (Option.some_ne_none e)⟩

theorem Tells.get {f : LogState → LogM α} (hf : ∀ t, Tells text (f t)) : Tells text (MonadState.get >>= f) := fun s => hf s s

theorem Tells.silent {x : LogM α} {f : α → LogM β} (hx : Tells [] x) (hf : ∀ a, Tells text (f a)) :
    Tells text (x >>= f) := hx.bind hf

/-- A text that is made on the stack. -/
theorem Tells.calls {τ : Type} {x : EStateM Stop τ α} {t t' : τ} {a : α} {f : α → LogM β} (hrun : x t = .ok a t')
    (hf : Tells text (f a)) : Tells text (Exec.calls x t >>= f) := by
  intro s
  rw [Exec.bind_ok (Exec.calls_ok hrun s)]
  exact hf s

theorem kernelAssert_tells (c : Prop) [Decidable c] (expr : String) : Tells [] (kernelAssert c expr : LogM Unit) :=
  .nothing fun s => kernelAssert_keeps (R := fun s s' : LogState => s'.serial = s.serial) (fun _ => rfl) c expr s

end Tells

/-! ## Drawing sends nothing -/

section Drawing

variable (dbg : Bool) (font : Nat → UInt8)

theorem dVesaDrawPixel_tells (x y : Nat) (red green blue : UInt8) : Tells [] (dVesaDrawPixel x y red green blue) :=
  .get fun _ => (kernelAssert_tells _ _).silent fun _ => (kernelAssert_tells _ _).silent fun _ => .nothing fun _ => rfl

theorem pixelLoop_tells (row col : Nat) (ch : UInt8) (ln : Nat) : ∀ n, Tells [] (pixelLoop font row col ch ln n)
  | 0 => .pure ()
  | n + 1 => by
    refine (pixelLoop_tells row col ch ln n).silent fun _ => ?_
    split
    · exact dVesaDrawPixel_tells _ _ _ _ _
    · exact .pure ()

theorem lineLoop_tells (row col : Nat) (ch : UInt8) : ∀ n, Tells [] (lineLoop font row col ch n)
  | 0 => .pure ()
  | n + 1 => (lineLoop_tells row col ch n).silent fun _ => pixelLoop_tells font row col ch n 8

theorem videoDrawChar_tells (row col : Nat) (ch : UInt8) : Tells [] (videoDrawChar font row col ch) := by
  intro s
  have hrest : Tells [] (do
      kernelAssert (row < videoCharRowMax s) "row < video_char_row_max()"
      kernelAssert (col < videoCharColMax s) "col < video_char_col_max()"
      lineLoop font row col ch 16) :=
    (kernelAssert_tells _ _).silent fun _ => (kernelAssert_tells _ _).silent fun _ => lineLoop_tells font row col ch 16
  exact hrest { s with draws := ⟨row, col, videoCharRowMax s, videoCharColMax s⟩ :: s.draws }

theorem drawLoop_tells (str : List UInt8) : ∀ n, Tells [] (drawLoop font str n)
  | 0 => .pure ()
  | n + 1 => by
    refine (drawLoop_tells str n).silent fun _ s => ?_
    exact videoDrawChar_tells font s.screenRow s.screenCol (charAt str n) { s with screenCol := u64 (s.screenCol + 1) }

end Drawing

/-! ## Parts of a line -/

section Parts

variable (dbg : Bool) (font : Nat → UInt8)

/-- What is given to `log_str_len` goes to the port in full, however little of it fits on the screen. -/
theorem logStrLen_tells (str : List UInt8) : Tells str (logStrLen dbg font str) := by
  have hsend : Tells str (serialWriteStr str) := fun s => ⟨str, rfl, List.prefix_rfl, fun _ => rfl⟩
  have hdraw : Tells [] (do
      let s ← MonadState.get
      if s.writeScreen then do
        kernelAssertD dbg (s.screenCol ≤ videoCharColMax s) "_screen_col <= video_width"
        let room := u64Sub (videoCharColMax s) s.screenCol
        drawLoop font str (if room < str.length then room else str.length)
      else Pure.pure () : LogM Unit) := by
    refine .get fun s => ?_
    split
    · refine Tells.silent (.nothing fun s => ?_) fun _ => drawLoop_tells font str _
      exact kernelAssertD_keeps (R := fun s s' : LogState => s'.serial = s.serial) (fun _ => rfl) dbg _ _ s
    · exact .pure ()
  have hall := hsend.bind fun _ => hdraw
  rwa [List.append_nil] at hall

theorem logUint_tells {uval : Nat} (h : uval < 2 ^ 64) : Tells (decimal uval) (logUint dbg font uval) := by
  obtain ⟨s', hrun⟩ := uintText_run h
  exact .calls hrun (logStrLen_tells dbg font _)

/-- The end of a line divides by zero before it sends its two characters, or sends them. -/
theorem logLineEnd_tells : Tells (ascii "\r\n") logLineEnd := by
  have hsend : Tells (ascii "\r\n") (serialWriteStr (ascii "\r\n")) := fun s => ⟨_, rfl, List.prefix_rfl, fun _ => rfl⟩
  unfold logLineEnd
  intro s
  rw [Exec.bind_ok (Exec.get_run s)]
  split
  · split
    · exact Tells.throw .divideError s
    · exact hsend { s with screenRow := u64 (s.screenRow + 1) % videoCharRowMax s, screenCol := 0 }
  · exact hsend s

end Parts

/-! ## Texts made on the stack -/

section Texts

variable {dbg : Bool} {n : Nat} {file : Nat → UInt8} {v : List UInt8}

/-- The path of a source file as the build gives it, with `v` behind its first `/src/`: the digit `0` comes up to there neither in
it nor right behind, no start of `/src/` runs into it, and `n` rounds get to its end. -/
def SourcePath (n : Nat) (file : Nat → UInt8) (v : List UInt8) : Prop := ∃ path u, PathAt file path ∧ FirstAt srcDir path u v ∧
  Broken srcDir u ∧ '0'.toUInt8 ∉ u ∧ v.head? ≠ some '0'.toUInt8 ∧ path.length + 2 ≤ n

/-- `str_len` of characters with a NUL behind them. -/
theorem strLenAt_run : ∀ {v : List UInt8} {off n len : Nat}, CharsAt file (off + len) (v ++ [0]) → 0 ∉ v → v.length < n → ∀ reads,
    ∃ reads', strLenAt file off n len reads = .ok (len + v.length) reads'
  | _, _, 0, _, _, _, hn, _ => absurd hn (Nat.not_lt_zero _)
  | [], off, n + 1, len, hat, _, _, reads => by
    have hend : file (off + len) = 0 := (charsAt_cons.1 hat).1
    rw [strLenAt, Exec.bind_ok (readChar_run file (off + len) reads), hend, if_neg (not_not_intro rfl)]
    exact ⟨_, rfl⟩
  | c :: v, off, n + 1, len, hat, hnul, hn, reads => by
    obtain ⟨hc, hrest⟩ := charsAt_cons.1 hat
    obtain ⟨hne, hnul⟩ := not_or.1 fun h => hnul (List.mem_cons.2 h)
    obtain ⟨reads', hrun⟩ := @strLenAt_run v off n (len + 1) hrest hnul (Nat.lt_of_succ_lt_succ hn) ((off + len) :: reads)
    rw [strLenAt, Exec.bind_ok (readChar_run file (off + len) reads), hc, if_pos (Ne.symm hne), hrun,
      List.length_cons, Nat.add_assoc, Nat.add_comm 1]
    exact ⟨reads', rfl⟩

/-- The text of a path is its part behind `/src/`. -/
theorem fileText_run (h : SourcePath n file v) (dbg : Bool) : ∃ reads, fileText dbg file n [] = .ok v reads := by
  obtain ⟨path, u, hfile, hfirst, hbroken, hd, hhead, hn⟩ := h
  have hpath : path = u ++ srcDir ++ v := hfirst.1
  have hlen : path.length = u.length + 5 + v.length := by
    rw [hpath, List.length_append, List.length_append]
    rfl
  have hchars := hfile.chars
  rw [hpath, List.append_assoc] at hchars
  obtain ⟨hpat, hrest⟩ := charsAt_append.1 hchars
  rw [Nat.zero_add, List.length_append] at hrest
  have hrest : CharsAt file (u.length + 5) (v ++ [0]) := hrest
  have hnext : file (u.length + 5) ≠ '0'.toUInt8 := by
    cases v with
    | nil =>
      have hnul : file (u.length + 5) = 0 := (charsAt_cons.1 hrest).1
      rw [hnul]
      decide
    | cons c v =>
      have hc : file (u.length + 5) = c := (charsAt_cons.1 hrest).1
      rw [hc]
      exact fun he => hhead (congrArg some he)
  obtain ⟨k, rfl⟩ : ∃ k, n = 1 + 1 + (u.length + 4) + k := Nat.exists_eq_add_of_le (by omega)
  obtain ⟨reads, hpattern, -⟩ := stripLoop_pattern hpat hd hbroken.count dbg 1
  have hstrip : fileStrip dbg file (1 + 1 + (u.length + 4) + k) [] = .ok (u.length + 5) ((u.length + 5) :: reads) :=
    stripLoop_mono (hpattern.trans (stripLoop_found hnext ..)) k
  have hnul : 0 ∉ v := fun hv => hfile.ne_nul (by rw [hpath]; exact List.mem_append_right _ hv)
  obtain ⟨reads', hlength⟩ :=
    @strLenAt_run file v (u.length + 5) (1 + 1 + (u.length + 4) + k) 0 hrest hnul (by omega) ((u.length + 5) :: reads)
  unfold fileText
  rw [Exec.bind_ok hstrip, Exec.bind_ok hlength, Nat.zero_add]
  refine ⟨reads', congrArg (EStateM.Result.ok · reads') (List.ext_getElem (by simp) fun i h1 h2 => ?_)⟩
  have hchar := hrest i (by rw [List.length_append]; omega)
  rw [List.getElem_append_left h2] at hchar
  simpa using hchar

/-- A format whose expansion the buffer of 256 bytes has room for. -/
theorem formatText256_run {ps : List Piece} (hps : ∀ p ∈ ps, p.Spelled) (hroom : (expansion ps).length < 256) :
    ∃ s', formatText256 (formatText ps) (stackBuf (formatArgs ps)) = .ok (expansion ps) s' := by
  obtain ⟨s', hrun, -, hbuf, -⟩ := format_follows_grammar (s := stackBuf (formatArgs ps)) hps (List.append_nil (formatArgs ps)).symm
    (show 256 < 2 ^ 64 by norm_num) (show 0 + (expansion ps).length < 256 by omega)
  unfold formatText256
  rw [Exec.bind_ok hrun, Exec.bind_ok (Exec.get_run s')]
  refine ⟨s', congrArg (EStateM.Result.ok · s') (List.ext_getElem (by simp) fun i h1 h2 => ?_)⟩
  rw [List.getElem_map, List.getElem_range, ← hbuf i h2, Nat.zero_add]

end Texts

/-! ## Lines -/

/-- How a line starts: its level, the part of the path behind `/src/`, the number. -/
def lineStart (lv : LogLevel) (v : List UInt8) (line : UInt64) : List UInt8 :=
  linePrefixLevel lv ++ (ascii " " ++ (v ++ (ascii ":" ++ (decimal line.toNat ++ ascii " "))))

def lineText (lv : LogLevel) (v : List UInt8) (line : UInt64) (text : List UInt8) : List UInt8 :=
  lineStart lv v line ++ (text ++ ascii "\r\n")

/-- The format of the line of `d_vesa_bootstrap`. -/
def vesaPieces (info : FrameBufferInfo) : List Piece :=
  (ascii "Frame buffer: ").map .lit ++ .uint info.width.toUInt64 :: (ascii "x").map .lit ++ .uint info.height.toUInt64 ::
    (ascii ", ").map .lit ++ .uint (info.depth / 8).toUInt64 :: (ascii ", pa: ").map .lit ++ [.uint info.paddr]

/-- The line of a call. Its path is one of the build, and the buffer of 256 bytes has room for its text. -/
inductive Line (n : Nat) : LogEvent → List UInt8 → Prop
  | enable : Line n .enable []
  | vesa {info : FrameBufferInfo} {fbLen : Nat} {file : Nat → UInt8} {v : List UInt8} : SourcePath n file v →
    Line n (.vesa info fbLen file) (lineText .info v 82 (expansion (vesaPieces info)))
  | line {lv : LogLevel} {file : Nat → UInt8} {line : UInt64} {ps : List Piece} {v : List UInt8} (hnul : 0 ∉ formatText ps) :
    SourcePath n file v → (∀ p ∈ ps, p.Spelled) → (expansion ps).length < 256 →
    Line n (.line lv file line ⟨formatText ps, hnul⟩ (formatArgs ps)) (lineText lv v line (expansion ps))
  | testPass {testName : CStr} {file : Nat → UInt8} {line : UInt64} {v : List UInt8} : SourcePath n file v →
    Line n (.testPass testName file line) (lineText .selfTest v line (testName.chars ++ ascii " .. Passed."))

section Lines

variable {n : Nat} {dbg : Bool} {font : Nat → UInt8} {file : Nat → UInt8} {v : List UInt8} {s : LogState}

theorem vesaPieces_text (info : FrameBufferInfo) : formatText (vesaPieces info) = ascii "Frame buffer: %lux%lu, %lu, pa: %lu" := by
  rfl

theorem vesaPieces_args (info : FrameBufferInfo) : formatArgs (vesaPieces info) =
    [.uint info.width.toUInt64, .uint info.height.toUInt64, .uint (info.depth / 8).toUInt64, .uint info.paddr] := by
  rfl

theorem vesaPieces_spelled (info : FrameBufferInfo) : ∀ p ∈ vesaPieces info, p.Spelled := by
  have hlits : ∀ {l : List UInt8}, '%'.toUInt8 ∉ l → ∀ p ∈ l.map Piece.lit, p.Spelled := by
    intro l hl p hp
    obtain ⟨c, hc, rfl⟩ := List.mem_map.1 hp
    exact fun he => hl (he ▸ hc)
  intro p hp
  simp only [vesaPieces, List.mem_append, List.mem_cons, List.not_mem_nil, or_false, or_assoc] at hp
  rcases hp with hp | rfl | hp | rfl | hp | rfl | hp | rfl
  · exact hlits (by decide) p hp
  · trivial
  · exact hlits (by decide) p hp
  · trivial
  · exact hlits (by decide) p hp
  · trivial
  · exact hlits (by decide) p hp
  · trivial

theorem expansion_lits (l : List UInt8) : expansion (l.map .lit) = l := by
  induction l with
  | nil => rfl
  | cons c l ih => exact congrArg (c :: ·) ih

theorem vesaPieces_out (info : FrameBufferInfo) : expansion (vesaPieces info) =
    ascii "Frame buffer: " ++
      (decimal info.width.toUInt64.toNat ++ (ascii "x" ++ (decimal info.height.toUInt64.toNat ++ (ascii ", " ++
      (decimal (info.depth / 8).toUInt64.toNat ++ (ascii ", pa: " ++ decimal info.paddr.toNat)))))) := by
  have happend : ∀ ps qs : List Piece, expansion (ps ++ qs) = expansion ps ++ expansion qs := fun ps qs => List.flatMap_append
  have huint : ∀ (val : UInt64) (ps : List Piece), expansion (.uint val :: ps) = decimal val.toNat ++ expansion ps := fun _ _ => rfl
  have hnil : expansion [] = [] := rfl
  unfold vesaPieces
  simp only [happend, huint, hnil, expansion_lits, List.append_assoc, List.cons_append, List.append_nil]

theorem vesaPieces_length (info : FrameBufferInfo) : (expansion (vesaPieces info)).length < 256 := by
  have hdec : ∀ val : UInt64, (decimal val.toNat).length ≤ 20 := fun val =>
    decimal_length_le (val.toNat_lt.trans (by norm_num)) (by norm_num)
  have hw := hdec info.width.toUInt64
  have hh := hdec info.height.toUInt64
  have hd := hdec (info.depth / 8).toUInt64
  have ha := hdec info.paddr
  have hlits : (ascii "Frame buffer: ").length + (ascii "x").length + (ascii ", ").length + (ascii ", pa: ").length = 23 := by
    decide
  rw [vesaPieces_out]
  simp only [List.length_append]
  omega

/-- `_log_line_start` sends the start of a line. -/
theorem logLineStart_tells (h : SourcePath n file v) (lv : LogLevel) (line : UInt64) :
    Tells (lineStart lv v line) (logLineStart dbg font lv file line n) := by
  obtain ⟨reads, hpath⟩ := fileText_run h dbg
  have hrest : Tells (v ++ (ascii ":" ++ (decimal line.toNat ++ ascii " "))) (do
      logStrLen dbg font v
      logStrLen dbg font (ascii ":")
      logUint dbg font line.toNat
      logStrLen dbg font (ascii " ")) :=
    (logStrLen_tells dbg font v).bind fun _ => (logStrLen_tells dbg font _).bind fun _ =>
      (logUint_tells dbg font line.toNat_lt).bind fun _ => logStrLen_tells dbg font _
  exact (logStrLen_tells dbg font _).bind fun _ => (logStrLen_tells dbg font _).bind fun _ => .calls hpath hrest

theorem logLineFormatV_tells (h : SourcePath n file v) {ps : List Piece} (hps : ∀ p ∈ ps, p.Spelled)
    (hroom : (expansion ps).length < 256) {format : CStr} (hformat : format.chars = formatText ps) (lv : LogLevel) (line : UInt64) :
    Tells (lineText lv v line (expansion ps)) (logLineFormatV dbg font lv file line format (formatArgs ps) n) := by
  obtain ⟨s', htext⟩ := formatText256_run hps hroom
  rw [← hformat] at htext
  have hrest : Tells (expansion ps ++ ascii "\r\n") (do
      logStrLen dbg font (expansion ps)
      logLineEnd) := (logStrLen_tells dbg font _).bind fun _ => logLineEnd_tells
  exact (logLineStart_tells h lv line).bind fun _ => .calls htext hrest

theorem logBuiltinTestPass_tells (h : SourcePath n file v) (testName : CStr) (line : UInt64) :
    Tells (lineText .selfTest v line (testName.chars ++ ascii " .. Passed."))
      (logBuiltinTestPass dbg font testName file line n) := by
  have hpass := (@logLineStart_tells n dbg font file v h .selfTest line).bind fun _ =>
    (logStrLen_tells dbg font testName.chars).bind fun _ =>
      (logStrLen_tells dbg font (ascii " .. Passed.")).bind fun _ => logLineEnd_tells
  unfold lineText
  rwa [List.append_assoc]

/-- One call sends its line, or a start of it if it stops. -/
theorem perform_tells {sized : Bool} {e : LogEvent} {line : List UInt8} (hl : Line n e line) (he : e.Allowed sized) :
    Tells line (perform n dbg font e) := by
  cases hl with
  | enable => exact .nothing fun _ => rfl
  | @vesa info fbLen file v hpath =>
    intro s
    show ∃ part, (Exec.final (dVesaBootstrap dbg font info fbLen file n s)).serial = _ ∧ _ ∧
      (Exec.stops (dVesaBootstrap dbg font info fbLen file n s) = none → _)
    rw [he.2.bootstrap n dbg font file s, ← vesaPieces_args]
    exact logLineFormatV_tells hpath (vesaPieces_spelled info) (vesaPieces_length info) (vesaPieces_text info).symm .info 82 _
  | line hnul hpath hps hroom => exact logLineFormatV_tells hpath hps hroom rfl _ _
  | testPass hpath => exact logBuiltinTestPass_tells hpath _ _

/-- Both texts of a line get made. -/
theorem lineStop_none (hpath : SourcePath n file v) {ps : List Piece} (hps : ∀ p ∈ ps, p.Spelled)
    (hroom : (expansion ps).length < 256)
    {format : CStr} (hformat : format.chars = formatText ps) : lineStop dbg n file format (formatArgs ps) = none := by
  obtain ⟨reads, hfile⟩ := fileText_run hpath dbg
  obtain ⟨s', htext⟩ := formatText256_run hps hroom
  unfold lineStop
  rw [hfile, hformat, htext]
  rfl

/-- One call returns, if its line does not go to a screen that is on and has no row. -/
theorem perform_returns {sized : Bool} {e : LogEvent} {line : List UInt8} (hl : Line n e line) (hs : Placed s)
    (hsize : sized = false → s.width = 0 ∧ s.height = 0) (he : e.Allowed sized) (hok : LineOk s e) :
    Exec.stops (perform n dbg font e s) = none := by
  cases hl with
  | enable => rfl
  | @vesa info fbLen file v hpath =>
    show Exec.stops (dVesaBootstrap dbg font info fbLen file n s) = none
    rw [he.2.bootstrap n dbg font file s, ← vesaPieces_args]
    have hline := logLineFormatV_steady n dbg font .info file 82 ⟨ascii "Frame buffer: %lux%lu, %lu, pa: %lu", by decide⟩
      (formatArgs (vesaPieces info)) _ (hs.sized (hsize he.1) info (info.depth.toNat / 8)) hok
    exact hline.1.trans (lineStop_none hpath (vesaPieces_spelled info) (vesaPieces_length info) (vesaPieces_text info).symm)
  | line hnul hpath hps hroom =>
    exact (logLineFormatV_steady n dbg font _ _ _ _ _ s hs hok).1.trans (lineStop_none hpath hps hroom rfl)
  | @testPass testName file line v hpath =>
    obtain ⟨reads, hfile⟩ := fileText_run hpath dbg
    exact (logBuiltinTestPass_steady n dbg font testName file line s hs hok).1.trans (congrArg Exec.stops hfile)

end Lines

/-! ## A boot -/

/-- The states of a boot, with the lines of its calls. No line goes to a screen that is on and has no row. -/
inductive Logged (n : Nat) (dbg : Bool) (font : Nat → UInt8) : Bool → List (List UInt8) → LogState → Prop
  | start {s : LogState} : LogStart s → s.serial = [] → Logged n dbg font false [] s
  | step {sized : Bool} {lines : List (List UInt8)} {s : LogState} (e : LogEvent) {line : List UInt8} :
      Logged n dbg font sized lines s → e.Allowed sized → LineOk s e → Line n e line →
    Logged n dbg font (sized || e.sizes) (lines ++ [line]) (Exec.final (perform n dbg font e s))

section Logged

variable {n : Nat} {dbg : Bool} {font : Nat → UInt8} {sized : Bool} {lines : List (List UInt8)} {s : LogState}

theorem Logged.boot (h : Logged n dbg font sized lines s) : Boot n dbg font LineOk sized s := by
  induction h with
  | start h _ => exact .start h
  | step e _ he hok _ ih => exact .step e ih he hok

/-- The next call returns and has sent its line. -/
theorem Logged.next (h : Logged n dbg font sized lines s) {e : LogEvent} {line : List UInt8} (he : e.Allowed sized)
    (hok : LineOk s e) (hl : Line n e line) : Exec.stops (perform n dbg font e s) = none ∧
    (Exec.final (perform n dbg font e s)).serial = s.serial ++ line := by
  obtain ⟨hs, hsize⟩ := h.boot.placed
  have hret : Exec.stops (perform n dbg font e s) = none := perform_returns hl hs hsize he hok
  have htells : Tells line (perform n dbg font e) := perform_tells hl he
  obtain ⟨part, hsent, -, hall⟩ := htells s
  exact ⟨hret, hall hret ▸ hsent⟩

/-- In every boot in which no line goes to a screen that is on and has no row, the serial port got the lines of all calls, in full
and in their order, and the next call returns and adds its line. -/
theorem lines_reach_serial (h : Logged n dbg font sized lines s) : s.serial = lines.flatten ∧
    ∀ (e : LogEvent) (line : List UInt8), e.Allowed sized → LineOk s e → Line n e line →
      Exec.stops (perform n dbg font e s) = none ∧ (Exec.final (perform n dbg font e s)).serial = lines.flatten ++ line := by
  have hserial : s.serial = lines.flatten := by
    induction h with
    | start _ hserial => exact hserial
    | step e h he hok hl ih => rw [(h.next he hok hl).2, ih, List.flatten_append, List.flatten_singleton]
  refine ⟨hserial, fun e line he hok hl => ?_⟩
  rw [← hserial]
  exact h.next he hok hl

end Logged

/-! A boot that sets the screen up, switches it on and writes a line. -/

def srcPath₀ : Nat → UInt8 := fileOf (ascii "/src/a")

theorem srcPath₀_source : SourcePath 8 srcPath₀ (ascii "a") :=
  ⟨ascii "/src/a", [], fileOf_pathAt (by decide), ⟨rfl, fun _ _ _ => Nat.zero_le _⟩, .nil, by decide, by decide, by decide⟩

def call₀ (e : LogEvent) (s : LogState) : LogState := Exec.final (perform 8 true (fun _ => 0) e s)

def vesaCall₀ : LogEvent := .vesa ⟨0xFD000000, 640, 480, 32, 1, 0⟩ 30 srcPath₀

/-- `b%lu` with the argument 7. -/
def pieces₀ : List Piece := [.lit 98, .uint 7]

def lineCall₀ : LogEvent := .line .info srcPath₀ 3 ⟨formatText pieces₀, by decide⟩ (formatArgs pieces₀)

theorem lines_reach_serial_boot : (call₀ lineCall₀ (call₀ .enable (call₀ vesaCall₀ logState₀))).serial =
    ascii "[INF]" ++ 0 :: ascii " a:82 Frame buffer: 640x480, 4, pa: 4244635648\r\n" ++
      (ascii "[INF]" ++ 0 :: ascii " a:3 b7\r\n") := by
  have hsized : Logged 8 true (fun _ => 0) true _ (call₀ vesaCall₀ logState₀) :=
    .step vesaCall₀ (.start logState₀_start rfl) ⟨rfl, rfl, rfl, rfl, rfl⟩ (fun h => absurd h Bool.false_ne_true)
      (.vesa srcPath₀_source)
  have hon : Logged 8 true (fun _ => 0) true _ (call₀ .enable (call₀ vesaCall₀ logState₀)) :=
    .step .enable hsized trivial trivial .enable
  have hspelled : ∀ p ∈ pieces₀, p.Spelled := by
    intro p hp
    simp only [pieces₀, List.mem_cons, List.not_mem_nil, or_false] at hp
    rcases hp with rfl | rfl
    · exact (by decide : (98 : UInt8) ≠ '%'.toUInt8)
    · trivial
  have hline : Logged 8 true (fun _ => 0) true _ (call₀ lineCall₀ (call₀ .enable (call₀ vesaCall₀ logState₀))) :=
    .step lineCall₀ hon trivial (fun _ => by decide +kernel) (.line (by decide) srcPath₀_source hspelled (by decide +kernel))
  rw [(lines_reach_serial hline).1]
  decide +kernel

end Cing.Log
