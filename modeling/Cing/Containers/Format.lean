/-
containers_string.c: `str_buf_marshal_format_v`, the formatter behind every log line. The format is a row of pieces, each a
literal character, `%%` or a directive that takes an argument. A directive checks that there is room for what it writes; a
literal character and `%%` do not, so a format can write behind the buffer once it is full.
-/
import Cing.Containers.String

namespace Cing.Str

/-! ## The code -/

/-- `va_arg(va, const char *)`. An argument of another type has no meaning; here the call stops. -/
def vaArgStr : StrM CStr := do
  let s ← get
  match s.va with
  | .str str :: va =>
    set { s with va := va }
    return str
  | _ => throw (.panic "va_arg")

/-- `va_arg(va, u64_t)`. -/
def vaArgUint : StrM Nat := do
  let s ← get
  match s.va with
  | .uint val :: va =>
    set { s with va := va }
    return val.toNat
  | _ => throw (.panic "va_arg")

/-- The loop over a string with a precision, `n` characters before it ends: `buf_ptr` at its end. -/
def precisionLoop (bufLen : Nat) (str : List UInt8) : Nat → Nat → Nat → StrM Nat
  | 0, _, bufPtr => return bufPtr
  | n + 1, strPtr, bufPtr =>
    if charAt str strPtr = 0 then return bufPtr
    else do
      kernelAssert (bufPtr < bufLen) "buf_ptr < buf_len"
      bufPut bufPtr (charAt str strPtr)
      precisionLoop bufLen str n (strPtr + 1) (u64 (bufPtr + 1))

/-- The body of the loop of `str_buf_marshal_format_v`: `format_ptr` and `buf_ptr` at its end. -/
def formatRound (bufLen : Nat) (format : List UInt8) (formatLen formatPtr bufPtr : Nat) : StrM (Nat × Nat) :=
  if charAt format formatPtr ≠ '%'.toUInt8 then do
    bufPut bufPtr (charAt format formatPtr)
    return (formatPtr, u64 (bufPtr + 1))
  else if charAt format (formatPtr + 1) = '%'.toUInt8 then do
    bufPut bufPtr '%'.toUInt8
    return (formatPtr + 1, u64 (bufPtr + 1))
  else if charAt format (formatPtr + 1) = 's'.toUInt8 then do
    let str ← vaArgStr
    let len ← strBufMarshalStr bufPtr bufLen str.chars (strLen str)
    return (formatPtr + 1, u64 (bufPtr + len))
  else if charAt format (formatPtr + 1) = 'l'.toUInt8 then
    if charAt format (formatPtr + 2) = 'u'.toUInt8 then do
      let uval ← vaArgUint
      let len ← strBufMarshalUint bufPtr bufLen uval
      return (formatPtr + 2, u64 (bufPtr + len))
    else throw (.panic "TODO")
  else if charAt format (formatPtr + 1) = '.'.toUInt8 then do
    let r ← strToUint (charAt format) (formatPtr + 2) formatLen
    let str ← vaArgStr
    let bufPtr ← precisionLoop bufLen str.chars r.1 0 bufPtr
    return (formatPtr + 2 + r.2, bufPtr)
  else throw (.panic "TODO")

/-- The loop of `str_buf_marshal_format_v`, at most `n` rounds: `buf_ptr` at its end. -/
def formatLoop (bufLen : Nat) (format : List UInt8) (formatLen : Nat) : Nat → Nat → Nat → StrM Nat
  | 0, _, _ => throw .hang
  | n + 1, formatPtr, bufPtr =>
    if formatPtr < formatLen then do
      let r ← formatRound bufLen format formatLen formatPtr bufPtr
      formatLoop bufLen format formatLen n (r.1 + 1) r.2
    else return bufPtr

/-- `str_buf_marshal_format_v`. Each round gets at least one character further. -/
def strBufMarshalFormatV (bufOff bufLen : Nat) (format : List UInt8) (formatLen : Nat) : StrM Nat := do
  kernelAssert (bufOff < bufLen) "buf_off < buf_len"
  let bufPtr ← formatLoop bufLen format formatLen (formatLen + 1) 0 bufOff
  kernelAssert (bufPtr ≤ bufLen) "buf_ptr <= buf_len"
  return u64Sub bufPtr bufOff

/-! ## Pieces -/

/-- A piece of a format, with the argument it takes. -/
inductive Piece where
  | lit (ch : UInt8)
  | percent
  | str (str : CStr)
  | uint (val : UInt64)
  /-- A string with a precision; any character may stand behind its digits. -/
  | precision (digits : List UInt8) (ch : UInt8) (str : CStr)

namespace Piece

/-- How the format spells it. -/
def text : Piece → List UInt8
  | lit ch => [ch]
  | percent => ['%'.toUInt8, '%'.toUInt8]
  | str _ => ['%'.toUInt8, 's'.toUInt8]
  | uint _ => ['%'.toUInt8, 'l'.toUInt8, 'u'.toUInt8]
  | precision digits ch _ => '%'.toUInt8 :: '.'.toUInt8 :: (digits ++ [ch])

def args : Piece → List Arg
  | lit _ => []
  | percent => []
  | str arg => [.str arg]
  | uint val => [.uint val]
  | precision _ _ arg => [.str arg]

/-- What it stands for. A precision is a 64-bit value. -/
def out : Piece → List UInt8
  | lit ch => [ch]
  | percent => ['%'.toUInt8]
  | str arg => arg.chars
  | uint val => decimal val.toNat
  | precision digits _ arg => arg.chars.take (u64 (digitsVal digits))

/-- The formatter reads it where it is spelled. -/
def Ok : Piece → Prop
  | lit ch => ch ≠ '%'.toUInt8
  | precision digits ch _ => digits ≠ [] ∧ (∀ c ∈ digits, strCharIsDigit c = true) ∧ strCharIsDigit ch = false
  | _ => True

/-- It belongs to the grammar: a literal is not `%`, and a precision has digits, is below 2^64 and has an `s` behind it. -/
def Spelled : Piece → Prop
  | lit ch => ch ≠ '%'.toUInt8
  | precision digits ch _ => digits ≠ [] ∧ (∀ c ∈ digits, strCharIsDigit c = true) ∧ digitsVal digits < 2 ^ 64 ∧ ch = 's'.toUInt8
  | _ => True

theorem Spelled.ok {p : Piece} (h : p.Spelled) : p.Ok := by
  cases p with
  | precision digits ch arg =>
    obtain ⟨hne, hdig, -, rfl⟩ := h
    exact ⟨hne, hdig, by decide⟩
  | _ => exact h

/-- It is written without a check for room. -/
def Plain : Piece → Prop
  | lit _ => True
  | percent => True
  | _ => False

/-- It needs room for one byte more than it writes. -/
def Spare : Piece → Prop
  | str _ => True
  | uint _ => True
  | _ => False

/-- There is room for it at `bufPtr`. -/
def Fits (bufLen bufPtr : Nat) (p : Piece) : Prop := bufPtr + p.out.length ≤ bufLen ∧ (p.Spare → bufPtr + p.out.length < bufLen)

end Piece

/-! ## The branches of the loop -/

variable {bufOff bufLen formatLen i q n : Nat} {f l pre post : List UInt8} {s : StrState} {str : CStr} {va : List Arg} {p : Piece}

theorem vaArgStr_run (h : s.va = .str str :: va) : vaArgStr s = .ok str { s with va := va } := by
  unfold vaArgStr
  rw [Exec.bind_ok (Exec.get_run s), h]
  rfl

theorem vaArgUint_run {val : UInt64} (h : s.va = .uint val :: va) : vaArgUint s = .ok val.toNat { s with va := va } := by
  unfold vaArgUint
  rw [Exec.bind_ok (Exec.get_run s), h]
  rfl

theorem formatRound_lit (h0 : charAt f i ≠ '%'.toUInt8) (s : StrState) :
    formatRound bufLen f formatLen i q s = .ok (i, u64 (q + 1)) (wrote s q [charAt f i]) := by
  unfold formatRound
  rw [if_pos h0, Exec.bind_ok (bufPut_run q _ s)]
  rfl

section

variable (h0 : charAt f i = '%'.toUInt8)
include h0

theorem formatRound_percent (h1 : charAt f (i + 1) = '%'.toUInt8) (s : StrState) :
    formatRound bufLen f formatLen i q s = .ok (i + 1, u64 (q + 1)) (wrote s q ['%'.toUInt8]) := by
  unfold formatRound
  rw [if_neg (not_not_intro h0), if_pos h1, Exec.bind_ok (bufPut_run q _ s)]
  rfl

theorem formatRound_str (h1 : charAt f (i + 1) = 's'.toUInt8) :
    formatRound bufLen f formatLen i q = (do
      let str ← vaArgStr
      let len ← strBufMarshalStr q bufLen str.chars (strLen str)
      return (i + 1, u64 (q + len))) := by
  unfold formatRound
  rw [if_neg (not_not_intro h0), h1, if_neg (by decide), if_pos rfl]

theorem formatRound_uint (h1 : charAt f (i + 1) = 'l'.toUInt8) (h2 : charAt f (i + 2) = 'u'.toUInt8) :
    formatRound bufLen f formatLen i q = (do
      let uval ← vaArgUint
      let len ← strBufMarshalUint q bufLen uval
      return (i + 2, u64 (q + len))) := by
  unfold formatRound
  rw [if_neg (not_not_intro h0), h1, if_neg (by decide), if_neg (by decide), if_pos rfl, if_pos h2]

theorem formatRound_precision (h1 : charAt f (i + 1) = '.'.toUInt8) :
    formatRound bufLen f formatLen i q = (do
      let r ← strToUint (charAt f) (i + 2) formatLen
      let str ← vaArgStr
      let bufPtr ← precisionLoop bufLen str.chars r.1 0 q
      return (i + 2 + r.2, bufPtr)) := by
  unfold formatRound
  rw [if_neg (not_not_intro h0), h1, if_neg (by decide), if_neg (by decide), if_neg (by decide), if_pos rfl]

/-- Nothing else may stand behind a `%`. -/
theorem formatRound_other (h1 : charAt f (i + 1) ≠ '%'.toUInt8) (hs : charAt f (i + 1) ≠ 's'.toUInt8)
    (hl : charAt f (i + 1) = 'l'.toUInt8 → charAt f (i + 2) ≠ 'u'.toUInt8) (hdot : charAt f (i + 1) ≠ '.'.toUInt8) (s : StrState) :
    formatRound bufLen f formatLen i q s = .error (.panic "TODO") s := by
  unfold formatRound
  rw [if_neg (not_not_intro h0), if_neg h1, if_neg hs]
  by_cases hch : charAt f (i + 1) = 'l'.toUInt8
  · rw [if_pos hch, if_neg (hl hch)]
    rfl
  · rw [if_neg hch, if_neg hdot]
    rfl

end

/-! ## One piece -/

theorem charAt_append (pre l : List UInt8) (i : Nat) : charAt (pre ++ l) (pre.length + i) = charAt l i := by
  unfold charAt
  rw [List.getD_eq_getElem?_getD, List.getD_eq_getElem?_getD, List.getElem?_append_right (by omega), Nat.add_sub_cancel_left]

/-- The loop over a string for which there is room, from one of its characters on. -/
theorem precisionLoop_run (str : CStr) (hlen : bufLen < 2 ^ 64) : ∀ {n i q : Nat} (s : StrState),
    q + ((str.chars.drop i).take n).length ≤ bufLen →
    precisionLoop bufLen str.chars n i q s =
      .ok (q + ((str.chars.drop i).take n).length) (wrote s q ((str.chars.drop i).take n)) := by
  intro n
  induction n with
  | zero =>
    intro i q s _
    rw [List.take_zero, wrote_nil]
    rfl
  | succ n ih =>
    intro i q s hroom
    rw [precisionLoop]
    by_cases hi : i < str.chars.length
    · have hne := CStr.ne_zero str hi
      rw [List.drop_eq_getElem_cons hi, List.take_succ_cons, List.length_cons] at hroom ⊢
      rw [charAt_of_lt hi, if_neg hne, Exec.bind_ok (kernelAssert_pos (by omega) _ s), Exec.bind_ok (bufPut_run _ _ s),
        u64_of_lt (by omega), ih _ (by omega)]
      have hrow := wrote_wrote s q [str.chars[i]] ((str.chars.drop (i + 1)).take n)
      rw [List.length_singleton, List.singleton_append] at hrow
      rw [hrow, Nat.add_assoc, Nat.add_comm 1]
    · have hnil : str.chars.drop i = [] := List.drop_eq_nil_of_le (by omega)
      rw [charAt_of_le (by omega), if_pos rfl, hnil, List.take_nil, wrote_nil, Exec.pure_run]
      rfl

theorem wrote_va (s : StrState) (va : List Arg) (q : Nat) (l : List UInt8) :
    wrote { s with va := va } q l = { wrote s q l with va := va } := rfl

/-- The body of the loop at a piece for which there is room. -/
theorem formatRound_piece (pre post : List UInt8) (hlen : bufLen < 2 ^ 64) (hp : p.Ok) (hva : s.va = p.args ++ va)
    (hfit : p.Fits bufLen q) : ∃ k, k + 1 = pre.length + p.text.length ∧
      formatRound bufLen (pre ++ (p.text ++ post)) (pre ++ (p.text ++ post)).length pre.length q s =
        .ok (k, q + p.out.length) { wrote s q p.out with va := va } := by
  obtain ⟨hroom, hspare⟩ := hfit
  have hat := charAt_append pre (p.text ++ post)
  have hat0 : charAt (pre ++ (p.text ++ post)) pre.length = charAt (p.text ++ post) 0 := hat 0
  cases p with
  | lit ch =>
    have hva : s.va = va := hva
    have hroom : q + 1 ≤ bufLen := hroom
    have hch : charAt (pre ++ ((Piece.lit ch).text ++ post)) pre.length = ch := hat0
    refine ⟨pre.length, rfl, ?_⟩
    rw [formatRound_lit (by rw [hch]; exact hp), u64_of_lt (by omega), hch, ← hva]
    rfl
  | percent =>
    have hva : s.va = va := hva
    have hroom : q + 1 ≤ bufLen := hroom
    refine ⟨pre.length + 1, rfl, ?_⟩
    rw [formatRound_percent hat0 (hat 1), u64_of_lt (by omega), ← hva]
    rfl
  | str arg =>
    have hroom : q + arg.chars.length < bufLen := hspare trivial
    refine ⟨pre.length + 1, rfl, ?_⟩
    rw [formatRound_str hat0 (hat 1), Exec.bind_ok (vaArgStr_run hva), strLen_eq, Exec.bind_ok (strBufMarshalStr_run hroom hlen _),
      u64_of_lt (by omega)]
    rfl
  | uint val =>
    have hroom : q + (decimal val.toNat).length < bufLen := hspare trivial
    refine ⟨pre.length + 2, rfl, ?_⟩
    rw [formatRound_uint hat0 (hat 1) (hat 2), Exec.bind_ok (vaArgUint_run hva),
      Exec.bind_ok (strBufMarshalUint_run val.toNat_lt hroom hlen _), u64_of_lt (by omega)]
    rfl
  | precision digits ch arg =>
    obtain ⟨hne, hdig, hch⟩ := hp
    have htext : (Piece.precision digits ch arg).text ++ post = ['%'.toUInt8, '.'.toUInt8] ++ (digits ++ ch :: post) := by
      simp [Piece.text]
    have hbehind : ∀ k, charAt (pre ++ ((Piece.precision digits ch arg).text ++ post)) (pre.length + 2 + k) =
        charAt (digits ++ ch :: post) k := by
      intro k
      rw [Nat.add_assoc, hat, htext]
      exact charAt_append ['%'.toUInt8, '.'.toUInt8] _ k
    have hread : ∀ k (h : k < digits.length),
        charAt (pre ++ ((Piece.precision digits ch arg).text ++ post)) (pre.length + 2 + k) = digits[k] := by
      intro k h
      rw [hbehind, charAt_of_lt (by rw [List.length_append]; omega), List.getElem_append_left h]
    have hnext : charAt (pre ++ ((Piece.precision digits ch arg).text ++ post)) (pre.length + 2 + digits.length) = ch := by
      rw [hbehind]
      exact charAt_append digits (ch :: post) 0
    refine ⟨pre.length + 2 + digits.length, ?_, ?_⟩
    · simp [Piece.text]
      omega
    · have hin : pre.length + 2 + digits.length < (pre ++ ((Piece.precision digits ch arg).text ++ post)).length := by
        simp [Piece.text]
        omega
      rw [formatRound_precision hat0 (hat 1), Exec.bind_ok (strToUint_run hne hdig hread (.inr ⟨hin, by rw [hnext]; exact hch⟩) s),
        Exec.bind_ok (vaArgStr_run hva), Exec.bind_ok (precisionLoop_run arg hlen _ hroom)]
      rfl

/-! ## Rows of pieces -/

/-- The format of a row of pieces. -/
def formatText (ps : List Piece) : List UInt8 := ps.flatMap Piece.text

/-- The arguments behind it. -/
def formatArgs (ps : List Piece) : List Arg := ps.flatMap Piece.args

/-- What it expands to. -/
def expansion (ps : List Piece) : List UInt8 := ps.flatMap Piece.out

/-- There is room for each piece behind the ones before it. -/
def Fits (bufLen : Nat) : Nat → List Piece → Prop
  | _, [] => True
  | q, p :: ps => p.Fits bufLen q ∧ Fits bufLen (q + p.out.length) ps

theorem text_pos (p : Piece) : 0 < p.text.length := by
  cases p <;> exact Nat.zero_lt_succ _

theorem formatText_length (p : Piece) (ps : List Piece) : (formatText (p :: ps)).length = p.text.length + (formatText ps).length :=
  List.length_append

theorem expansion_length (p : Piece) (ps : List Piece) : (expansion (p :: ps)).length = p.out.length + (expansion ps).length :=
  List.length_append

theorem length_le_formatText (ps : List Piece) : ps.length ≤ (formatText ps).length := by
  induction ps with
  | nil => exact le_rfl
  | cons p ps ih =>
    have hpos := text_pos p
    rw [formatText_length, List.length_cons]
    omega

/-- The loop goes over a row of pieces for which there is room, one round each. -/
theorem formatLoop_pieces (hlen : bufLen < 2 ^ 64) (n : Nat) : ∀ {ps : List Piece} (pre post : List UInt8) {q : Nat} {va : List Arg}
    {s : StrState}, (∀ p ∈ ps, p.Ok) → s.va = formatArgs ps ++ va → Fits bufLen q ps →
    formatLoop bufLen (pre ++ (formatText ps ++ post)) (pre ++ (formatText ps ++ post)).length (ps.length + n) pre.length q s =
      formatLoop bufLen (pre ++ (formatText ps ++ post)) (pre ++ (formatText ps ++ post)).length
        n (pre.length + (formatText ps).length) (q + (expansion ps).length) { wrote s q (expansion ps) with va := va } := by
  intro ps
  induction ps with
  | nil =>
    intro pre post q va s _ hva _
    have hs : { wrote s q (expansion []) with va := va } = s := by
      have hva : s.va = va := hva
      rw [show expansion [] = [] from rfl, wrote_nil, ← hva]
    rw [hs, List.length_nil, Nat.zero_add]
    rfl
  | cons p ps ih =>
    intro pre post q va s hok hva hfit
    obtain ⟨hp, hps⟩ := List.forall_mem_cons.1 hok
    have hva : s.va = p.args ++ (formatArgs ps ++ va) := by
      rw [hva, ← List.append_assoc]
      rfl
    have htext : formatText (p :: ps) ++ post = p.text ++ (formatText ps ++ post) := by
      rw [← List.append_assoc]
      rfl
    obtain ⟨k, hk, hround⟩ := formatRound_piece pre (formatText ps ++ post) hlen hp hva hfit.1
    have hin : pre.length < (pre ++ (p.text ++ (formatText ps ++ post))).length := by
      have hpos := text_pos p
      rw [List.length_append, List.length_append]
      omega
    have hrow : { wrote { wrote s q p.out with va := formatArgs ps ++ va } (q + p.out.length) (expansion ps) with va := va } =
        { wrote s q (expansion (p :: ps)) with va := va } := by
      rw [wrote_va, wrote_wrote]
      rfl
    have hpre : (pre ++ p.text).length = pre.length + p.text.length := List.length_append
    have hrest := ih (pre ++ p.text) post (s := { wrote s q p.out with va := formatArgs ps ++ va }) hps rfl hfit.2
    rw [List.append_assoc, hpre, hrow] at hrest
    rw [htext, List.length_cons, Nat.add_right_comm, formatLoop, if_pos hin, Exec.bind_ok hround]
    dsimp only
    rw [hk, hrest, formatText_length, expansion_length, Nat.add_assoc, Nat.add_assoc]

theorem fits_of_lt : ∀ {ps : List Piece} {q : Nat}, q + (expansion ps).length < bufLen → Fits bufLen q ps := by
  intro ps
  induction ps with
  | nil => exact fun _ => trivial
  | cons p ps ih =>
    intro q h
    rw [expansion_length] at h
    exact ⟨⟨by omega, fun _ => by omega⟩, ih (by omega)⟩

/-- With room for the expansion of a format and one byte more, `str_buf_marshal_format_v` writes the expansion and nothing
else, reads one argument for each directive and returns the length. -/
theorem format_follows_grammar {ps : List Piece} (hps : ∀ p ∈ ps, p.Spelled) (hva : s.va = formatArgs ps ++ va)
    (hlen : bufLen < 2 ^ 64) (hroom : bufOff + (expansion ps).length < bufLen) :
    ∃ s', strBufMarshalFormatV bufOff bufLen (formatText ps) (formatText ps).length s = .ok (expansion ps).length s' ∧ s'.va = va ∧
      (∀ i (h : i < (expansion ps).length), s'.buf (bufOff + i) = (expansion ps)[i]) ∧
      ∀ x, x < bufOff ∨ bufOff + (expansion ps).length ≤ x → s'.buf x = s.buf x := by
  refine ⟨{ wrote s bufOff (expansion ps) with va := va }, ?_, rfl, fun i h => Bytes.splice_inside h,
    fun x hx => Bytes.splice_outside hx⟩
  obtain ⟨n, hn⟩ := Nat.exists_eq_add_of_le (length_le_formatText ps)
  have hloop := formatLoop_pieces hlen (n + 1) [] [] (fun p hp => (hps p hp).ok) hva (fits_of_lt hroom)
  rw [List.nil_append, List.append_nil, List.length_nil, Nat.zero_add, ← Nat.add_assoc, ← hn] at hloop
  unfold strBufMarshalFormatV
  rw [Exec.bind_ok (kernelAssert_pos (by omega) _ s)]
  have hend : formatLoop bufLen (formatText ps) (formatText ps).length ((formatText ps).length + 1) 0 bufOff s =
      .ok (bufOff + (expansion ps).length) { wrote s bufOff (expansion ps) with va := va } := by
    rw [hloop, formatLoop, if_neg (lt_irrefl _)]
    rfl
  rw [Exec.bind_ok hend, Exec.bind_ok (kernelAssert_pos (by omega) _ _), u64Sub_of_le (by omega) (by omega),
    Nat.add_sub_cancel_left]
  rfl

/-- `a%.2s=%lu%%` with two arguments. -/
def logPieces : List Piece :=
  [.lit 97, .precision [50] 's'.toUInt8 ⟨[120, 121, 122], by decide⟩, .lit 61, .uint 40, .percent]

theorem format_follows_grammar_log : ∃ s', strBufMarshalFormatV 2 16 (formatText logPieces) (formatText logPieces).length
    { strState₀ with va := formatArgs logPieces } = .ok 7 s' ∧ s'.va = [] ∧
      expansion logPieces = [97, 120, 121, 61, 52, 48, 37] := by
  have hexp : expansion logPieces = [97, 120, 121, 61, 52, 48, 37] := by decide +kernel
  have hcount : (expansion logPieces).length = 7 := by rw [hexp]; rfl
  have hps : ∀ p ∈ logPieces, p.Spelled := by
    intro p hp
    simp only [logPieces, List.mem_cons, List.not_mem_nil, or_false] at hp
    rcases hp with rfl | rfl | rfl | rfl | rfl
    · exact (by decide : (97 : UInt8) ≠ '%'.toUInt8)
    · exact ⟨by decide +kernel, by decide +kernel, by decide +kernel, rfl⟩
    · exact (by decide : (61 : UInt8) ≠ '%'.toUInt8)
    · trivial
    · trivial
  obtain ⟨s', hrun, hva, -, -⟩ := format_follows_grammar (s := { strState₀ with va := formatArgs logPieces }) hps
    (List.append_nil _).symm (show 16 < 2 ^ 64 by decide) (show 2 + (expansion logPieces).length < 16 by rw [hcount]; decide)
  rw [hcount] at hrun
  exact ⟨s', hrun, hva, hexp⟩

/-! ## Writes behind the buffer -/

/-- Nothing was written behind the buffer. -/
def Inside (bufLen : Nat) (s : StrState) : Prop := ∀ x, s.written x = true → x < bufLen

theorem inside_wrote (hs : Inside bufLen s) (h : q + l.length ≤ bufLen) : Inside bufLen (wrote s q l) := by
  intro x hx
  have hx : ((decide (q ≤ x) && decide (x < q + l.length)) || s.written x) = true := hx
  rw [Bool.or_eq_true, ← Bool.decide_and, decide_eq_true_iff] at hx
  rcases hx with hx | hx
  · omega
  · exact hs x hx

theorem strBufMarshalStr_stop (hq : q ≤ bufLen) (hlen : bufLen < 2 ^ 64) (h : bufLen ≤ q + l.length) (s : StrState) :
    ∃ e, strBufMarshalStr q bufLen l l.length s = .error e s := by
  refine ⟨_, Exec.bind_error (kernelAssert_neg ?_ "(buf_len - buf_off) > str_len" s)⟩
  rw [u64Sub_of_le hq hlen]
  omega

theorem strBufMarshalUint_stop {val : Nat} (hval : val < 2 ^ 64) (hq : q ≤ bufLen) (hlen : bufLen < 2 ^ 64)
    (h : bufLen ≤ q + (decimal val).length) (s : StrState) : ∃ e, strBufMarshalUint q bufLen val s = .error e s := by
  refine ⟨_, Exec.bind_error (kernelAssert_neg ?_ "(buf_len - buf_off) > digit_cnt" s)⟩
  rw [u64Sub_of_le hq hlen, digitCntLoop_eq 0 (by omega : val < 10 ^ 20) (by omega)]
  omega

/-- A string with a precision stops where the buffer ends. -/
theorem precisionLoop_stop (str : CStr) (hlen : bufLen < 2 ^ 64) : ∀ {n i q : Nat} {s : StrState}, q ≤ bufLen → Inside bufLen s →
    bufLen < q + ((str.chars.drop i).take n).length → ∃ e s', precisionLoop bufLen str.chars n i q s = .error e s' ∧
      Inside bufLen s' := by
  intro n
  induction n with
  | zero =>
    intro i q s hq _ h
    rw [List.take_zero, List.length_nil] at h
    omega
  | succ n ih =>
    intro i q s hq hs h
    by_cases hi : i < str.chars.length
    · have hne := CStr.ne_zero str hi
      rw [List.drop_eq_getElem_cons hi, List.take_succ_cons, List.length_cons] at h
      rw [precisionLoop, charAt_of_lt hi, if_neg hne]
      by_cases hfull : q < bufLen
      · rw [Exec.bind_ok (kernelAssert_pos hfull _ s), Exec.bind_ok (bufPut_run _ _ s), u64_of_lt (by omega)]
        exact ih hfull (inside_wrote hs hfull) (by omega)
      · exact ⟨_, s, Exec.bind_error (kernelAssert_neg hfull _ s), hs⟩
    · rw [List.drop_eq_nil_of_le (by omega), List.take_nil, List.length_nil] at h
      omega

theorem vaArgStr_cases (s : StrState) : (∃ str va, s.va = .str str :: va) ∨ vaArgStr s = .error (.panic "va_arg") s := by
  unfold vaArgStr
  rw [Exec.bind_ok (Exec.get_run s)]
  cases s.va with
  | nil => exact .inr rfl
  | cons arg va =>
    cases arg with
    | str str => exact .inl ⟨str, va, rfl⟩
    | uint val => exact .inr rfl

theorem vaArgUint_cases (s : StrState) : (∃ val va, s.va = .uint val :: va) ∨ vaArgUint s = .error (.panic "va_arg") s := by
  unfold vaArgUint
  rw [Exec.bind_ok (Exec.get_run s)]
  cases s.va with
  | nil => exact .inr rfl
  | cons arg va =>
    cases arg with
    | str str => exact .inr rfl
    | uint val => exact .inl ⟨val, va, rfl⟩

theorem strToUint_stop {str : Bytes.Mem} {p e : Nat} (h : p < e → strCharIsDigit (str p) = false) (s : StrState) :
    ∃ err, strToUint str p e s = .error err s := by
  have hloop : strToUintLoop str (e - p) p 0 = (p, 0) := by
    by_cases hlt : p < e
    · obtain ⟨k, hk⟩ := Nat.exists_eq_add_of_lt hlt
      rw [show e - p = k + 1 by omega, strToUintLoop, h hlt]
      rfl
    · rw [Nat.sub_eq_zero_of_le (by omega)]
      rfl
  refine ⟨_, Exec.bind_error (kernelAssert_neg ?_ "str_ptr > str_off" s)⟩
  rw [hloop]
  exact lt_irrefl p

/-- What the body of the loop does inside of a format whose rest is `rest`: it is at a piece that is plain or for which there
is room, or it stops inside of the buffer, or it gets to the end of the format inside of the buffer. -/
inductive Round (bufLen q : Nat) (s : StrState) (pre rest : List UInt8) : Prop
  | piece (p : Piece) (post : List UInt8) (va : List Arg) (htext : rest = p.text ++ post) (hok : p.Ok) (hva : s.va = p.args ++ va)
      (hfit : p.Plain ∨ p.Fits bufLen q) : Round bufLen q s pre rest
  | stop (e : Stop) (s' : StrState)
      (hrun : formatRound bufLen (pre ++ rest) (pre ++ rest).length pre.length q s = .error e s') (hs' : Inside bufLen s') :
      Round bufLen q s pre rest
  | last (k q' : Nat) (s' : StrState)
      (hrun : formatRound bufLen (pre ++ rest) (pre ++ rest).length pre.length q s = .ok (k, q') s')
      (hk : (pre ++ rest).length ≤ k + 1) (hs' : Inside bufLen s') : Round bufLen q s pre rest

/-- The digits at the start of a text. -/
theorem digits_split (l : List UInt8) : ∃ digits tail, l = digits ++ tail ∧ (∀ c ∈ digits, strCharIsDigit c = true) ∧
    (0 < tail.length → strCharIsDigit (charAt tail 0) = false) := by
  induction l with
  | nil => exact ⟨[], [], rfl, fun c hc => absurd hc (List.not_mem_nil), fun h => absurd h (lt_irrefl 0)⟩
  | cons c l ih =>
    cases hc : strCharIsDigit c with
    | false => exact ⟨[], c :: l, rfl, fun c' hc' => absurd hc' (List.not_mem_nil), fun _ => hc⟩
    | true =>
      obtain ⟨digits, tail, rfl, hdig, htail⟩ := ih
      exact ⟨c :: digits, tail, rfl, List.forall_mem_cons.2 ⟨hc, hdig⟩, htail⟩

section

variable (hlen : bufLen < 2 ^ 64) (hq : q ≤ bufLen) (hs : Inside bufLen s)
include hlen hq hs

theorem round_str (pre post : List UInt8) : Round bufLen q s pre ('%'.toUInt8 :: 's'.toUInt8 :: post) := by
  have hat := charAt_append pre ('%'.toUInt8 :: 's'.toUInt8 :: post)
  have hat0 : charAt (pre ++ '%'.toUInt8 :: 's'.toUInt8 :: post) pre.length = '%'.toUInt8 := hat 0
  rcases vaArgStr_cases s with ⟨arg, va, hva⟩ | hstop
  · by_cases hroom : q + arg.chars.length < bufLen
    · exact .piece (.str arg) post va rfl trivial hva (.inr ⟨hroom.le, fun _ => hroom⟩)
    · obtain ⟨e, hrun⟩ := strBufMarshalStr_stop hq hlen (Nat.le_of_not_lt hroom) { s with va := va }
      refine .stop e { s with va := va } ?_ hs
      rw [formatRound_str hat0 (hat 1), Exec.bind_ok (vaArgStr_run hva), strLen_eq, Exec.bind_error hrun]
  · refine .stop (.panic "va_arg") s ?_ hs
    rw [formatRound_str hat0 (hat 1), Exec.bind_error hstop]

theorem round_uint (pre post : List UInt8) : Round bufLen q s pre ('%'.toUInt8 :: 'l'.toUInt8 :: 'u'.toUInt8 :: post) := by
  have hat := charAt_append pre ('%'.toUInt8 :: 'l'.toUInt8 :: 'u'.toUInt8 :: post)
  have hat0 : charAt (pre ++ '%'.toUInt8 :: 'l'.toUInt8 :: 'u'.toUInt8 :: post) pre.length = '%'.toUInt8 := hat 0
  rcases vaArgUint_cases s with ⟨val, va, hva⟩ | hstop
  · by_cases hroom : q + (decimal val.toNat).length < bufLen
    · exact .piece (.uint val) post va rfl trivial hva (.inr ⟨hroom.le, fun _ => hroom⟩)
    · obtain ⟨e, hrun⟩ := strBufMarshalUint_stop val.toNat_lt hq hlen (Nat.le_of_not_lt hroom) { s with va := va }
      refine .stop e { s with va := va } ?_ hs
      rw [formatRound_uint hat0 (hat 1) (hat 2), Exec.bind_ok (vaArgUint_run hva), Exec.bind_error hrun]
  · refine .stop (.panic "va_arg") s ?_ hs
    rw [formatRound_uint hat0 (hat 1) (hat 2), Exec.bind_error hstop]

/-- Behind `%.` the digits are split off. -/
theorem round_precision (pre post : List UInt8) : Round bufLen q s pre ('%'.toUInt8 :: '.'.toUInt8 :: post) := by
  obtain ⟨digits, tail, rfl, hdig, htail⟩ := digits_split post
  have hat := charAt_append pre ('%'.toUInt8 :: '.'.toUInt8 :: (digits ++ tail))
  have hat0 : charAt (pre ++ '%'.toUInt8 :: '.'.toUInt8 :: (digits ++ tail)) pre.length = '%'.toUInt8 := hat 0
  have hbehind : ∀ k, charAt (pre ++ '%'.toUInt8 :: '.'.toUInt8 :: (digits ++ tail)) (pre.length + 2 + k) =
      charAt (digits ++ tail) k := by
    intro k
    rw [Nat.add_assoc, hat]
    exact charAt_append ['%'.toUInt8, '.'.toUInt8] _ k
  have hdigits : ∀ k (h : k < digits.length),
      charAt (pre ++ '%'.toUInt8 :: '.'.toUInt8 :: (digits ++ tail)) (pre.length + 2 + k) = digits[k] := by
    intro k h
    rw [hbehind, charAt_of_lt (by rw [List.length_append]; omega), List.getElem_append_left h]
  have hnext : charAt (pre ++ '%'.toUInt8 :: '.'.toUInt8 :: (digits ++ tail)) (pre.length + 2 + digits.length) = charAt tail 0 := by
    rw [hbehind]
    exact charAt_append digits tail 0
  have htotal : (pre ++ '%'.toUInt8 :: '.'.toUInt8 :: (digits ++ tail)).length = pre.length + 2 + digits.length + tail.length := by
    rw [List.length_append, List.length_cons, List.length_cons, List.length_append]
    omega
  by_cases hne : digits = []
  · subst hne
    have hnone : pre.length + 2 < (pre ++ '%'.toUInt8 :: '.'.toUInt8 :: ([] ++ tail)).length →
        strCharIsDigit (charAt (pre ++ '%'.toUInt8 :: '.'.toUInt8 :: ([] ++ tail)) (pre.length + 2)) = false := by
      intro hlt
      rw [show charAt _ (pre.length + 2) = charAt tail 0 from hnext]
      exact htail (by rw [htotal] at hlt; simpa using hlt)
    obtain ⟨e, hstop⟩ := strToUint_stop hnone s
    refine .stop e s ?_ hs
    rw [formatRound_precision hat0 (hat 1), Exec.bind_error hstop]
  · have hread : strToUint (charAt (pre ++ '%'.toUInt8 :: '.'.toUInt8 :: (digits ++ tail))) (pre.length + 2)
        (pre ++ '%'.toUInt8 :: '.'.toUInt8 :: (digits ++ tail)).length s = .ok (u64 (digitsVal digits), digits.length) s := by
      refine strToUint_run hne hdig hdigits ?_ s
      rw [htotal, hnext]
      by_cases hend : tail.length = 0
      · exact .inl (by omega)
      · exact .inr ⟨by omega, htail (Nat.pos_of_ne_zero hend)⟩
    rcases vaArgStr_cases s with ⟨arg, va, hva⟩ | hstop
    · by_cases hroom : q + (arg.chars.take (u64 (digitsVal digits))).length ≤ bufLen
      · cases tail with
        | nil =>
          have hk : (pre ++ '%'.toUInt8 :: '.'.toUInt8 :: (digits ++ [])).length ≤ pre.length + 2 + digits.length + 1 := by
            rw [htotal, List.length_nil]
            omega
          have hin : Inside bufLen (wrote { s with va := va } q (arg.chars.take (u64 (digitsVal digits)))) := inside_wrote hs hroom
          refine .last (pre.length + 2 + digits.length) (q + (arg.chars.take (u64 (digitsVal digits))).length) _ ?_ hk hin
          rw [formatRound_precision hat0 (hat 1), Exec.bind_ok hread, Exec.bind_ok (vaArgStr_run hva)]
          exact Exec.bind_ok (precisionLoop_run arg hlen _ hroom)
        | cons ch post =>
          have hch : strCharIsDigit ch = false := htail (Nat.zero_lt_succ _)
          refine .piece (.precision digits ch arg) post va ?_ ⟨hne, hdig, hch⟩ hva (.inr ⟨hroom, False.elim⟩)
          simp [Piece.text]
      · have hover : bufLen < q + ((arg.chars.drop 0).take (u64 (digitsVal digits))).length := Nat.lt_of_not_le hroom
        obtain ⟨e, s', hrun, hs'⟩ := precisionLoop_stop arg hlen hq (s := { s with va := va }) hs hover
        refine .stop e s' ?_ hs'
        rw [formatRound_precision hat0 (hat 1), Exec.bind_ok hread, Exec.bind_ok (vaArgStr_run hva)]
        exact Exec.bind_error hrun
    · refine .stop (.panic "va_arg") s ?_ hs
      rw [formatRound_precision hat0 (hat 1), Exec.bind_ok hread, Exec.bind_error hstop]

/-- Every rest of a format is read in one of the three ways. -/
theorem round_cases (pre : List UInt8) {rest : List UInt8} (hne : rest ≠ []) : Round bufLen q s pre rest := by
  obtain ⟨c, rest, rfl⟩ := List.exists_cons_of_ne_nil hne
  have hat := charAt_append pre (c :: rest)
  have hat0 : charAt (pre ++ c :: rest) pre.length = c := hat 0
  by_cases hc : c = '%'.toUInt8
  · subst hc
    have hother : charAt rest 0 ≠ '%'.toUInt8 → charAt rest 0 ≠ 's'.toUInt8 →
        (charAt rest 0 = 'l'.toUInt8 → charAt rest 1 ≠ 'u'.toUInt8) → charAt rest 0 ≠ '.'.toUInt8 →
        Round bufLen q s pre ('%'.toUInt8 :: rest) := by
      intro h1 h2 h3 h4
      refine .stop (.panic "TODO") s (formatRound_other hat0 ?_ ?_ ?_ ?_ s) hs
      · rw [hat 1]; exact h1
      · rw [hat 1]; exact h2
      · rw [hat 1, hat 2]; exact h3
      · rw [hat 1]; exact h4
    cases rest with
    | nil => exact hother (by decide) (by decide) (by decide) (by decide)
    | cons d rest =>
      by_cases h1 : d = '%'.toUInt8
      · exact .piece .percent rest s.va (by rw [h1]; rfl) trivial rfl (.inl trivial)
      by_cases h2 : d = 's'.toUInt8
      · subst h2
        exact round_str hlen hq hs pre rest
      by_cases h4 : d = '.'.toUInt8
      · subst h4
        exact round_precision hlen hq hs pre rest
      by_cases h3 : d = 'l'.toUInt8 ∧ charAt rest 0 = 'u'.toUInt8
      · obtain ⟨rfl, hu⟩ := h3
        cases rest with
        | nil => exact absurd hu (by decide)
        | cons e rest =>
          have hu : e = 'u'.toUInt8 := hu
          subst hu
          exact round_uint hlen hq hs pre rest
      exact hother h1 h2 (fun hl hu => h3 ⟨hl, hu⟩) h4
  · exact .piece (.lit c) rest s.va rfl hc rfl (.inl trivial)

end

/-! ## What is written stays written -/

/-- What was written before was written after. -/
def Grows (s s' : StrState) : Prop := ∀ x, s.written x = true → s'.written x = true

theorem grows_refl (s : StrState) : Grows s s := fun _ h => h

theorem grows_trans (s t u : StrState) (h1 : Grows s t) (h2 : Grows t u) : Grows s u := fun x h => h2 x (h1 x h)

theorem keeps_bind {α β : Type} {x : StrM α} {g : α → StrM β} (hx : Exec.Keeps Grows x) (hg : ∀ a, Exec.Keeps Grows (g a)) :
    Exec.Keeps Grows (x >>= g) := .bind grows_trans hx hg

theorem keeps_pure {α : Type} (a : α) : Exec.Keeps Grows (pure a : StrM α) := .pure grows_refl a

theorem keeps_bufPut (i : Nat) (ch : UInt8) : Exec.Keeps Grows (bufPut i ch) := fun s x h => by
  rw [bufPut_run]
  exact Bool.or_eq_true_iff.2 (.inr h)

theorem keeps_vaArgStr : Exec.Keeps Grows vaArgStr := fun s => by
  rcases vaArgStr_cases s with ⟨str, va, hva⟩ | hstop
  · rw [vaArgStr_run hva]
    exact grows_refl s
  · rw [hstop]
    exact grows_refl s

theorem keeps_vaArgUint : Exec.Keeps Grows vaArgUint := fun s => by
  rcases vaArgUint_cases s with ⟨val, va, hva⟩ | hstop
  · rw [vaArgUint_run hva]
    exact grows_refl s
  · rw [hstop]
    exact grows_refl s

theorem keeps_marshalStrLoop (bufOff : Nat) (l : List UInt8) (n : Nat) : Exec.Keeps Grows (marshalStrLoop bufOff l n) := by
  induction n with
  | zero => exact keeps_pure ()
  | succ n ih => exact keeps_bind ih fun _ => keeps_bufPut _ _

theorem keeps_strBufMarshalStr (bufOff bufLen : Nat) (l : List UInt8) (n : Nat) :
    Exec.Keeps Grows (strBufMarshalStr bufOff bufLen l n) :=
  keeps_bind (kernelAssert_keeps grows_refl _ _) fun _ => keeps_bind (keeps_marshalStrLoop bufOff l n) fun _ => keeps_pure n

theorem keeps_marshalUintLoop (n : Nat) : ∀ q v, Exec.Keeps Grows (marshalUintLoop n q v) := by
  induction n with
  | zero => exact fun _ _ => .throw grows_refl _
  | succ n ih => exact fun q v => keeps_bind (keeps_bufPut _ _) fun _ => .ite (keeps_pure q) (ih _ _)

theorem keeps_strBufMarshalUint (bufOff bufLen val : Nat) : Exec.Keeps Grows (strBufMarshalUint bufOff bufLen val) :=
  keeps_bind (kernelAssert_keeps grows_refl _ _) fun _ => keeps_bind (keeps_marshalUintLoop _ _ _) fun _ =>
    keeps_bind (kernelAssert_keeps grows_refl _ _) fun _ => keeps_pure _

theorem keeps_precisionLoop (bufLen : Nat) (l : List UInt8) (n : Nat) : ∀ i q, Exec.Keeps Grows (precisionLoop bufLen l n i q) := by
  induction n with
  | zero => exact fun _ q => keeps_pure q
  | succ n ih =>
    exact fun i q => .ite (keeps_pure q)
      (keeps_bind (kernelAssert_keeps grows_refl _ _) fun _ => keeps_bind (keeps_bufPut _ _) fun _ => ih _ _)

theorem keeps_formatRound (bufLen : Nat) (f : List UInt8) (formatLen i q : Nat) :
    Exec.Keeps Grows (formatRound bufLen f formatLen i q) := by
  have hlit := fun ch (r : Nat × Nat) => keeps_bind (keeps_bufPut q ch) fun _ => keeps_pure r
  have hstr := keeps_bind keeps_vaArgStr fun str => keeps_bind (keeps_strBufMarshalStr q bufLen str.chars (strLen str)) fun len =>
    keeps_pure (i + 1, u64 (q + len))
  have huint := keeps_bind keeps_vaArgUint fun val => keeps_bind (keeps_strBufMarshalUint q bufLen val) fun len =>
    keeps_pure (i + 2, u64 (q + len))
  have hread : Exec.Keeps Grows (strToUint (charAt f) (i + 2) formatLen : StrM (Nat × Nat)) :=
    keeps_bind (kernelAssert_keeps grows_refl _ _) fun _ => keeps_pure _
  have hprec := keeps_bind hread fun r => keeps_bind keeps_vaArgStr fun str =>
    keeps_bind (keeps_precisionLoop bufLen str.chars r.1 0 q) fun q' => keeps_pure (i + 2 + r.2, q')
  have hstop : Exec.Keeps Grows (throw (.panic "TODO") : StrM (Nat × Nat)) := .throw grows_refl _
  exact .ite (hlit _ _) (.ite (hlit _ _) (.ite hstr (.ite (.ite huint hstop) (.ite hprec hstop))))

theorem keeps_formatLoop (bufLen : Nat) (f : List UInt8) (formatLen n : Nat) :
    ∀ i q, Exec.Keeps Grows (formatLoop bufLen f formatLen n i q) := by
  induction n with
  | zero => exact fun _ _ => .throw grows_refl _
  | succ n ih => exact fun i q => .ite (keeps_bind (keeps_formatRound _ _ _ _ _) fun _ => ih _ _) (keeps_pure q)

/-! ## When the formatter leaves the buffer -/

/-- Each `%s` and each `%lu` of a row from `q` on ends below the end of the buffer. -/
def Below (bufLen : Nat) : Nat → List Piece → Prop
  | _, [] => True
  | q, p :: ps => (p.Spare → q + p.out.length < bufLen) ∧ Below bufLen (q + p.out.length) ps

theorem fits_of_below : ∀ {ps : List Piece} {q : Nat}, q + (expansion ps).length ≤ bufLen → Below bufLen q ps →
    Fits bufLen q ps := by
  intro ps
  induction ps with
  | nil => exact fun _ _ => trivial
  | cons p ps ih =>
    intro q h hb
    rw [expansion_length] at h
    exact ⟨⟨by omega, hb.1⟩, ih (by omega) hb.2⟩

/-- A literal character or a `%%` stands where what is before it fills the buffer to its last byte, and no `%s` or `%lu` before
it ends there. -/
def Overrun (bufOff bufLen : Nat) (format : List UInt8) (va : List Arg) : Prop :=
  ∃ ps p post va', format = formatText ps ++ (Piece.text p ++ post) ∧ va = formatArgs ps ++ va' ∧ (∀ p' ∈ ps, Piece.Ok p') ∧
    p.Ok ∧ p.Plain ∧ bufOff + (expansion ps).length = bufLen ∧ Below bufLen bufOff ps

theorem Piece.Plain.out (h : p.Plain) : p.out.length = 1 ∧ ¬ p.Spare := by
  cases p with
  | lit ch => exact ⟨rfl, False.elim⟩
  | percent => exact ⟨rfl, False.elim⟩
  | str arg => exact h.elim
  | uint val => exact h.elim
  | precision digits ch arg => exact h.elim

/-- A piece in front keeps an overrun. -/
theorem Overrun.cons (hp : p.Ok) (hfit : p.Fits bufLen q) (h : Overrun (q + p.out.length) bufLen post va) :
    Overrun q bufLen (p.text ++ post) (p.args ++ va) := by
  obtain ⟨ps, p', post', va', rfl, rfl, hps, hp', hplain, hfull, hbelow⟩ := h
  refine ⟨p :: ps, p', post', va', (List.append_assoc ..).symm, (List.append_assoc ..).symm,
    List.forall_mem_cons.2 ⟨hp, hps⟩, hp', hplain, ?_, hfit.2, hbelow⟩
  rw [expansion_length]
  omega

/-- Without one the loop stays inside of the buffer. -/
theorem formatLoop_inside (hlen : bufLen < 2 ^ 64) : ∀ {n : Nat} {pre rest : List UInt8} {q : Nat} {s : StrState}, q ≤ bufLen →
    Inside bufLen s → ¬ Overrun q bufLen rest s.va →
    Inside bufLen (Exec.final (formatLoop bufLen (pre ++ rest) (pre ++ rest).length n pre.length q s)) := by
  intro n
  induction n with
  | zero => exact fun _ hs _ => hs
  | succ n ih =>
    intro pre rest q s hq hs hover
    rw [formatLoop]
    split
    next hin =>
      have hne : rest ≠ [] := by
        rintro rfl
        rw [List.append_nil] at hin
        exact lt_irrefl _ hin
      rcases round_cases hlen hq hs pre hne with ⟨p, post, va, rfl, hp, hva, hfit⟩ | ⟨e, s', hrun, hs'⟩ | ⟨k, q', s', hrun, hk, hs'⟩
      · have hfit : p.Fits bufLen q := by
          rcases hfit with hplain | hfit
          · have hfull : q ≠ bufLen := fun hfull =>
              hover ⟨[], p, post, s.va, rfl, rfl, fun p' hp' => absurd hp' List.not_mem_nil, hp, hplain, hfull, trivial⟩
            exact ⟨by rw [hplain.out.1]; omega, fun hspare => absurd hspare hplain.out.2⟩
          · exact hfit
        obtain ⟨k, hk, hround⟩ := formatRound_piece pre post hlen hp hva hfit
        have hpre : (pre ++ p.text).length = pre.length + p.text.length := List.length_append
        rw [Exec.bind_ok hround, ← List.append_assoc]
        dsimp only
        rw [hk, ← hpre]
        refine ih hfit.1 (inside_wrote hs hfit.1) fun hnext => hover ?_
        rw [hva]
        exact hnext.cons hp hfit
      · rw [Exec.bind_error hrun]
        exact hs'
      · rw [Exec.bind_ok hrun]
        cases n with
        | zero => exact hs'
        | succ n =>
          rw [formatLoop, if_neg (Nat.not_lt.2 hk)]
          exact hs'
    next => exact hs

/-- A plain piece is written wherever the loop is. -/
theorem formatRound_plain (pre post : List UInt8) (bufLen formatLen q : Nat) (hp : p.Ok) (hplain : p.Plain) (s : StrState) :
    ∃ r s', formatRound bufLen (pre ++ (p.text ++ post)) formatLen pre.length q s = .ok r s' ∧ s'.written q = true := by
  have hat := charAt_append pre (p.text ++ post)
  have hat0 : charAt (pre ++ (p.text ++ post)) pre.length = charAt (p.text ++ post) 0 := hat 0
  have hwrote : ∀ ch, (wrote s q [ch]).written q = true := by
    intro ch
    refine Bool.or_eq_true_iff.2 (.inl ?_)
    rw [← Bool.decide_and, decide_eq_true_iff, List.length_singleton]
    omega
  cases p with
  | lit ch =>
    have hch : charAt (pre ++ ((Piece.lit ch).text ++ post)) pre.length = ch := hat0
    exact ⟨_, _, formatRound_lit (by rw [hch]; exact hp) s, hwrote _⟩
  | percent => exact ⟨_, _, formatRound_percent hat0 (hat 1) s, hwrote _⟩
  | str arg => exact hplain.elim
  | uint val => exact hplain.elim
  | precision digits ch arg => exact hplain.elim

/-- With one it writes the byte behind the buffer. -/
theorem formatLoop_overrun (hlen : bufLen < 2 ^ 64) (h : Overrun q bufLen f s.va) (hn : f.length < n) :
    (Exec.final (formatLoop bufLen f f.length n 0 q s)).written bufLen = true := by
  obtain ⟨ps, p, post, va, rfl, hva, hps, hp, hplain, hfull, hbelow⟩ := h
  have hcount := length_le_formatText ps
  have hin : (formatText ps).length < (formatText ps ++ (p.text ++ post)).length := by
    have hpos := text_pos p
    rw [List.length_append, List.length_append]
    omega
  obtain ⟨k, rfl⟩ := Nat.exists_eq_add_of_lt (hcount.trans_lt (hin.trans hn))
  have hloop := formatLoop_pieces hlen (k + 1) [] (p.text ++ post) hps hva (fits_of_below hfull.le hbelow)
  rw [List.nil_append, List.length_nil, Nat.zero_add, hfull, ← Nat.add_assoc] at hloop
  obtain ⟨r, s', hround, hwritten⟩ := formatRound_plain (formatText ps) post bufLen
    (formatText ps ++ (p.text ++ post)).length bufLen hp hplain { wrote s q (expansion ps) with va := va }
  rw [hloop, formatLoop, if_pos hin, Exec.bind_ok hround]
  exact keeps_formatLoop _ _ _ _ _ _ s' bufLen hwritten

/-- What is done behind the loop writes nothing. -/
theorem strBufMarshalFormatV_final (hoff : bufOff < bufLen) (f : List UInt8) (formatLen : Nat) (s : StrState) :
    Exec.final (strBufMarshalFormatV bufOff bufLen f formatLen s) =
      Exec.final (formatLoop bufLen f formatLen (formatLen + 1) 0 bufOff s) := by
  unfold strBufMarshalFormatV
  rw [Exec.bind_ok (kernelAssert_pos hoff _ s)]
  cases hrun : formatLoop bufLen f formatLen (formatLen + 1) 0 bufOff s with
  | error e s' => rw [Exec.bind_error hrun, Exec.final_error]
  | ok q s' =>
    rw [Exec.bind_ok hrun, Exec.final_ok]
    by_cases hq : q ≤ bufLen
    · rw [Exec.bind_ok (kernelAssert_pos hq _ s'), Exec.pure_run, Exec.final_ok]
    · rw [Exec.bind_error (kernelAssert_neg hq _ s'), Exec.final_error]

/-- Whatever the format and the arguments, `str_buf_marshal_format_v` writes nothing behind the buffer if and only if no literal
character and no `%%` stands where the buffer is full. -/
theorem format_inside_iff (hlen : bufLen < 2 ^ 64) (hoff : bufOff < bufLen) (f : List UInt8) (hs : Inside bufLen s) :
    Inside bufLen (Exec.final (strBufMarshalFormatV bufOff bufLen f f.length s)) ↔ ¬ Overrun bufOff bufLen f s.va := by
  rw [strBufMarshalFormatV_final hoff]
  constructor
  · intro hin hover
    have hwritten := formatLoop_overrun hlen hover (Nat.lt_succ_self f.length)
    exact lt_irrefl _ (hin bufLen hwritten)
  · intro hover
    have hin : Inside bufLen
        (Exec.final (formatLoop bufLen ([] ++ f) ([] ++ f).length (f.length + 1) ([] : List UInt8).length bufOff s)) :=
      formatLoop_inside hlen hoff.le hs hover
    exact hin

theorem strState₀_inside (bufLen : Nat) : Inside bufLen strState₀ := fun _ h => absurd h Bool.false_ne_true

theorem format_inside_iff_short : Inside 2 (Exec.final (strBufMarshalFormatV 0 2 [97, 98] 2 strState₀)) ↔
    ¬ Overrun 0 2 [97, 98] [] :=
  format_inside_iff (show 2 < 2 ^ 64 by decide) (by decide) [97, 98] (strState₀_inside 2)

/-- A format of two letters in a buffer of one byte. -/
theorem format_leaves_buffer : ¬ Inside 1 (Exec.final (strBufMarshalFormatV 0 1 [97, 98] 2 strState₀)) := by
  intro h
  exact absurd (h 1 (by decide +kernel)) (by decide)

end Cing.Str
