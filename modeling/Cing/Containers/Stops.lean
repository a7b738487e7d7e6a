/-
containers_string.c: where `str_buf_marshal_format_v` stops. For a format of literals, strings and numbers the position in the
buffer is all that matters: a string and a number are checked against the room that is left, on words that wrap once literals went
behind the buffer, and the end is checked at last.
-/
import Cing.Containers.Format

namespace Cing.Str

variable {bufLen formatLen q n : Nat} {s : StrState} {va : List Arg} {p : Piece} {ps : List Piece}

/-- A directive without a precision, or a literal. -/
def Piece.Simple : Piece → Prop
  | .precision _ _ _ => False
  | _ => True

/-- How a piece stops at `bufPtr`. -/
def Piece.stop (bufLen bufPtr : Nat) : Piece → Option Stop
  | .str arg => if arg.chars.length < u64Sub bufLen bufPtr then none else some (.assertFail "(buf_len - buf_off) > str_len")
  | .uint val => if (decimal val.toNat).length < u64Sub bufLen bufPtr then none else
      some (.assertFail "(buf_len - buf_off) > digit_cnt")
  | _ => none

/-- How a row of pieces stops, its end included. -/
def rowStop (bufLen : Nat) : Nat → List Piece → Option Stop
  | q, [] => if q ≤ bufLen then none else some (.assertFail "buf_ptr <= buf_len")
  | q, p :: ps => (p.stop bufLen q).or (rowStop bufLen (q + p.out.length) ps)

/-- As long as no piece stops, the position does not wrap. -/
def NoWrap (bufLen : Nat) : Nat → List Piece → Prop
  | _, [] => True
  | q, p :: ps => p.stop bufLen q = none → q + p.out.length < 2 ^ 64 ∧ NoWrap bufLen (q + p.out.length) ps

/-- The body of the loop at a piece: it stops as the piece does, or gets behind it. -/
theorem formatRound_ends (bufLen : Nat) (pre post : List UInt8) (formatLen : Nat) (hp : p.Ok) (hsimple : p.Simple)
    (hva : s.va = p.args ++ va) (hlt : p.stop bufLen q = none → q + p.out.length < 2 ^ 64) :
    (∃ e s', p.stop bufLen q = some e ∧ formatRound bufLen (pre ++ (p.text ++ post)) formatLen pre.length q s = .error e s') ∨
      (p.stop bufLen q = none ∧ ∃ k s', k + 1 = pre.length + p.text.length ∧
        formatRound bufLen (pre ++ (p.text ++ post)) formatLen pre.length q s = .ok (k, q + p.out.length) s' ∧ s'.va = va) := by
  have hat := charAt_append pre (p.text ++ post)
  have hat0 : charAt (pre ++ (p.text ++ post)) pre.length = charAt (p.text ++ post) 0 := hat 0
  cases p with
  | lit ch =>
    have hch : charAt (pre ++ ((Piece.lit ch).text ++ post)) pre.length = ch := hat0
    have hlt : q + 1 < 2 ^ 64 := hlt rfl
    refine .inr ⟨rfl, pre.length, wrote s q [ch], rfl, ?_, hva⟩
    rw [formatRound_lit (by rw [hch]; exact hp), u64_of_lt hlt, hch]
    rfl
  | percent =>
    have hlt : q + 1 < 2 ^ 64 := hlt rfl
    refine .inr ⟨rfl, pre.length + 1, wrote s q ['%'.toUInt8], rfl, ?_, hva⟩
    rw [formatRound_percent hat0 (hat 1), u64_of_lt hlt]
    rfl
  | str arg =>
    rw [formatRound_str hat0 (hat 1), Exec.bind_ok (vaArgStr_run hva), strLen_eq]
    by_cases hroom : arg.chars.length < u64Sub bufLen q
    · have hlt : q + arg.chars.length < 2 ^ 64 := hlt (if_pos hroom)
      refine .inr ⟨if_pos hroom, pre.length + 1, wrote { s with va := va } q arg.chars, rfl, ?_, rfl⟩
      rw [Exec.bind_ok (strBufMarshalStr_checked hroom hlt _), u64_of_lt hlt]
      rfl
    · exact .inl ⟨_, { s with va := va }, if_neg hroom, Exec.bind_error (Exec.bind_error (kernelAssert_neg hroom _ _))⟩
  | uint val =>
    rw [formatRound_uint hat0 (hat 1) (hat 2), Exec.bind_ok (vaArgUint_run hva)]
    by_cases hroom : (decimal val.toNat).length < u64Sub bufLen q
    · have hlt : q + (decimal val.toNat).length < 2 ^ 64 := hlt (if_pos hroom)
      refine .inr ⟨if_pos hroom, pre.length + 2, wrote { s with va := va } q (decimal val.toNat), rfl, ?_, rfl⟩
      rw [Exec.bind_ok (strBufMarshalUint_checked val.toNat_lt hroom hlt _), u64_of_lt hlt]
      rfl
    · refine .inl ⟨_, { s with va := va }, if_neg hroom, Exec.bind_error (Exec.bind_error (kernelAssert_neg ?_ _ _))⟩
      have hval := val.toNat_lt
      rwa [digitCntLoop_eq 0 (by omega : val.toNat < 10 ^ 20) (by omega), Nat.zero_add]
  | precision digits ch arg => exact hsimple.elim

/-- The loop over a row of pieces, and the check behind it. -/
theorem formatLoop_ends (bufLen : Nat) (hps : ∀ p ∈ ps, p.Ok ∧ p.Simple) : ∀ (pre : List UInt8) {q n : Nat} {s : StrState},
    s.va = formatArgs ps → NoWrap bufLen q ps → ps.length < n →
    Exec.stops ((do
      let bufPtr ← formatLoop bufLen (pre ++ formatText ps) (pre ++ formatText ps).length n pre.length q
      kernelAssert (bufPtr ≤ bufLen) "buf_ptr <= buf_len"
      return bufPtr : StrM Nat) s) = rowStop bufLen q ps := by
  induction ps with
  | nil =>
    intro pre q n s _ _ hn
    obtain ⟨n, rfl⟩ := Nat.exists_eq_add_of_lt hn
    have hend : formatLoop bufLen (pre ++ formatText []) (pre ++ formatText []).length (0 + n + 1) pre.length q s = .ok q s := by
      rw [show formatText [] = [] from rfl, List.append_nil, formatLoop, if_neg (lt_irrefl _)]
      rfl
    rw [show ([] : List Piece).length = 0 from rfl, Exec.bind_ok hend]
    by_cases hq : q ≤ bufLen
    · rw [Exec.bind_ok (kernelAssert_pos hq _ s), rowStop, if_pos hq]
      rfl
    · rw [Exec.bind_error (kernelAssert_neg hq _ s), rowStop, if_neg hq]
      rfl
  | cons p ps ih =>
    intro pre q n s hva hlt hn
    obtain ⟨⟨hp, hsimple⟩, hps⟩ := List.forall_mem_cons.1 hps
    obtain ⟨n, rfl⟩ := Nat.exists_eq_add_of_lt hn
    have htext : formatText (p :: ps) = p.text ++ formatText ps := rfl
    have hin : pre.length < (pre ++ (p.text ++ formatText ps)).length := by
      have hpos := text_pos p
      rw [List.length_append, List.length_append]
      omega
    rw [htext, rowStop, List.length_cons, show ps.length + 1 + n + 1 = (ps.length + n + 1) + 1 by omega, formatLoop, if_pos hin]
    rcases formatRound_ends bufLen pre (formatText ps) (pre ++ (p.text ++ formatText ps)).length hp hsimple hva
      (fun h => (hlt h).1) with ⟨e, s', hstop, hround⟩ | ⟨hstop, k, s', hk, hround, hva'⟩
    · rw [Exec.bind_error (Exec.bind_error hround), hstop]
      rfl
    · have hpre : (pre ++ p.text).length = k + 1 := by rw [List.length_append, hk]
      have hrest := ih hps (pre ++ p.text) (q := q + p.out.length) (n := ps.length + n + 1) hva' (hlt hstop).2 (by omega)
      rw [List.append_assoc, hpre] at hrest
      rw [hstop, Option.none_or, ← hrest]
      exact congrArg Exec.stops (Exec.bind_congr (Exec.bind_ok hround))

/-- The formatter stops as its row of pieces does. -/
theorem strBufMarshalFormatV_stops (hps : ∀ p ∈ ps, p.Ok ∧ p.Simple) (hpos : 0 < bufLen) (hva : s.va = formatArgs ps)
    (hlt : NoWrap bufLen 0 ps) :
    Exec.stops (strBufMarshalFormatV 0 bufLen (formatText ps) (formatText ps).length s) = rowStop bufLen 0 ps := by
  have hcount := length_le_formatText ps
  have hloop := formatLoop_ends bufLen hps [] hva hlt (Nat.lt_succ_of_le hcount)
  rw [List.nil_append, List.length_nil] at hloop
  unfold strBufMarshalFormatV
  rw [Exec.bind_ok (kernelAssert_pos hpos _ s), ← hloop]
  cases hrun : formatLoop bufLen (formatText ps) (formatText ps).length ((formatText ps).length + 1) 0 0 s with
  | error e s' => rw [Exec.bind_error hrun, Exec.bind_error hrun]
  | ok r s' =>
    rw [Exec.bind_ok hrun, Exec.bind_ok hrun]
    by_cases hr : r ≤ bufLen
    · rw [Exec.bind_ok (kernelAssert_pos hr _ s'), Exec.bind_ok (kernelAssert_pos hr _ s'), Exec.pure_run, Exec.pure_run,
        Exec.stops_ok, Exec.stops_ok]
    · rw [Exec.bind_error (kernelAssert_neg hr _ s'), Exec.bind_error (kernelAssert_neg hr _ s')]

/-! ## Rows that are logged -/

/-- A row of literals. -/
def lits (l : List UInt8) : List Piece := l.map .lit

theorem lits_ok {l : List UInt8} (h : '%'.toUInt8 ∉ l) : ∀ p ∈ lits l, p.Ok ∧ p.Simple := by
  intro p hp
  obtain ⟨c, hc, rfl⟩ := List.mem_map.1 hp
  exact ⟨fun he => h (he ▸ hc), trivial⟩

theorem formatText_lits (l : List UInt8) (ps : List Piece) : formatText (lits l ++ ps) = l ++ formatText ps := by
  induction l with
  | nil => rfl
  | cons c l ih => exact congrArg (c :: ·) ih

theorem formatArgs_lits (l : List UInt8) (ps : List Piece) : formatArgs (lits l ++ ps) = formatArgs ps := by
  induction l with
  | nil => rfl
  | cons c l ih => exact ih

theorem rowStop_lits (l : List UInt8) (q : Nat) : rowStop bufLen q (lits l ++ ps) = rowStop bufLen (q + l.length) ps := by
  induction l generalizing q with
  | nil => rfl
  | cons c l ih =>
    rw [List.length_cons, show q + (l.length + 1) = q + 1 + l.length by omega, ← ih (q + 1)]
    rfl

theorem noWrap_lits {l : List UInt8} {q : Nat} (h : q + l.length < 2 ^ 64) (hps : NoWrap bufLen (q + l.length) ps) :
    NoWrap bufLen q (lits l ++ ps) := by
  induction l generalizing q with
  | nil => exact hps
  | cons c l ih =>
    rw [List.length_cons] at h hps
    refine fun _ => ⟨?_, ih ?_ ?_⟩
    · show q + 1 < 2 ^ 64
      omega
    · show q + 1 + l.length < 2 ^ 64
      omega
    · show NoWrap bufLen (q + 1 + l.length) ps
      rwa [show q + 1 + l.length = q + (l.length + 1) by omega]

theorem stop_str (hq : q ≤ bufLen) (hlen : bufLen < 2 ^ 64) (arg : CStr) : (Piece.str arg).stop bufLen q =
    if q + arg.chars.length < bufLen then none else some (.assertFail "(buf_len - buf_off) > str_len") := by
  unfold Piece.stop
  rw [u64Sub_of_le hq hlen]
  exact if_congr (by omega) rfl rfl

theorem stop_uint (hq : q ≤ bufLen) (hlen : bufLen < 2 ^ 64) (val : UInt64) : (Piece.uint val).stop bufLen q =
    if q + (decimal val.toNat).length < bufLen then none else some (.assertFail "(buf_len - buf_off) > digit_cnt") := by
  unfold Piece.stop
  rw [u64Sub_of_le hq hlen]
  exact if_congr (by omega) rfl rfl

/-- A text, and a string behind it. -/
def textRow (a : List UInt8) (arg : CStr) : List Piece := lits a ++ [.str arg]

/-- A string and a number between texts. -/
def placeRow (a b c : List UInt8) (arg : CStr) (val : UInt64) : List Piece := lits a ++ .str arg :: (lits b ++ .uint val :: lits c)

theorem formatText_textRow (a : List UInt8) (arg : CStr) : formatText (textRow a arg) = a ++ ['%'.toUInt8, 's'.toUInt8] :=
  formatText_lits a _

theorem formatArgs_textRow (a : List UInt8) (arg : CStr) : formatArgs (textRow a arg) = [.str arg] := formatArgs_lits a _

theorem formatText_placeRow (a b c : List UInt8) (arg : CStr) (val : UInt64) : formatText (placeRow a b c arg val) =
    a ++ '%'.toUInt8 :: 's'.toUInt8 :: (b ++ '%'.toUInt8 :: 'l'.toUInt8 :: 'u'.toUInt8 :: c) := by
  have hc := formatText_lits c []
  rw [List.append_nil, show formatText [] = [] from rfl, List.append_nil] at hc
  have hb := formatText_lits b (.uint val :: lits c)
  rw [show formatText (.uint val :: lits c) = ['%'.toUInt8, 'l'.toUInt8, 'u'.toUInt8] ++ formatText (lits c) from rfl, hc] at hb
  rw [placeRow, formatText_lits]
  exact congrArg (fun l => a ++ '%'.toUInt8 :: 's'.toUInt8 :: l) hb

theorem formatArgs_placeRow (a b c : List UInt8) (arg : CStr) (val : UInt64) :
    formatArgs (placeRow a b c arg val) = [.str arg, .uint val] := by
  have hc := formatArgs_lits c []
  rw [List.append_nil] at hc
  have hb := formatArgs_lits b (.uint val :: lits c)
  rw [show formatArgs (.uint val :: lits c) = .uint val :: formatArgs (lits c) from rfl, hc] at hb
  rw [placeRow, formatArgs_lits]
  exact congrArg (.str arg :: ·) hb

section Rows

variable {a b c : List UInt8} {arg : CStr} {val : UInt64} (hlen : bufLen < 2 ^ 64)
include hlen

theorem textRow_stop (ha : a.length ≤ bufLen) : rowStop bufLen 0 (textRow a arg) =
    if a.length + arg.chars.length < bufLen then none else some (.assertFail "(buf_len - buf_off) > str_len") := by
  rw [textRow, rowStop_lits, Nat.zero_add, rowStop, stop_str ha hlen]
  split
  next h => exact if_pos h.le
  next => rfl

/-- The string is checked against the room that is left. So is the number, unless the text between them went behind the buffer: then
the room is huge, and the end is noticed at last. -/
theorem placeRow_stop (ha : a.length ≤ bufLen) (hb : b.length < 2 ^ 32) (hbuf : bufLen < 2 ^ 32) (hc : c.length ≤ 1) :
    rowStop bufLen 0 (placeRow a b c arg val) =
      if a.length + arg.chars.length < bufLen then
        if a.length + arg.chars.length + b.length ≤ bufLen then
          if a.length + arg.chars.length + b.length + (decimal val.toNat).length < bufLen then none
          else some (.assertFail "(buf_len - buf_off) > digit_cnt")
        else some (.assertFail "buf_ptr <= buf_len")
      else some (.assertFail "(buf_len - buf_off) > str_len") := by
  have hval := val.toNat_lt
  have hdig : (decimal val.toNat).length ≤ 20 := decimal_length_le (by omega) (by omega)
  have hend : ∀ q, rowStop bufLen q (lits c) = if q + c.length ≤ bufLen then none else some (.assertFail "buf_ptr <= buf_len") := by
    intro q
    rw [← List.append_nil (lits c), rowStop_lits, rowStop]
  rw [placeRow, rowStop_lits, Nat.zero_add, rowStop, stop_str ha hlen]
  split
  next hstr =>
    rw [Option.none_or, rowStop_lits, rowStop]
    by_cases hq : a.length + arg.chars.length + b.length ≤ bufLen
    · rw [if_pos hq, show a.length + (Piece.str arg).out.length + b.length = a.length + arg.chars.length + b.length from rfl,
        stop_uint hq hlen]
      split
      next hnum =>
        rw [Option.none_or, hend, show (Piece.uint val).out.length = (decimal val.toNat).length from rfl, if_pos (by omega)]
      next => rfl
    · rw [if_neg hq, show a.length + (Piece.str arg).out.length + b.length = a.length + arg.chars.length + b.length from rfl]
      have hpass : (Piece.uint val).stop bufLen (a.length + arg.chars.length + b.length) = none := by
        unfold Piece.stop
        rw [u64Sub_of_lt (by omega)]
        exact if_pos (by omega)
      rw [hpass, Option.none_or, hend, if_neg (by omega)]
  next => rfl

theorem textRow_noWrap (ha : a.length ≤ bufLen) : NoWrap bufLen 0 (textRow a arg) := by
  refine noWrap_lits (by omega) fun hstop => ⟨?_, trivial⟩
  rw [Nat.zero_add, stop_str ha hlen] at hstop
  split at hstop
  next h =>
    show 0 + a.length + arg.chars.length < 2 ^ 64
    omega
  next => cases hstop

theorem placeRow_noWrap (ha : a.length ≤ bufLen) (hb : b.length < 2 ^ 32) (hbuf : bufLen < 2 ^ 32) (hc : c.length ≤ 1) :
    NoWrap bufLen 0 (placeRow a b c arg val) := by
  have hval := val.toNat_lt
  have hdig : (decimal val.toNat).length ≤ 20 := decimal_length_le (by omega) (by omega)
  refine noWrap_lits (by omega) fun hstop => ?_
  rw [Nat.zero_add, stop_str ha hlen] at hstop
  split at hstop
  next h =>
    rw [Nat.zero_add, show (Piece.str arg).out.length = arg.chars.length from rfl]
    refine ⟨by omega, noWrap_lits (by omega) fun _ => ?_⟩
    rw [show (Piece.uint val).out.length = (decimal val.toNat).length from rfl, ← List.append_nil (lits c)]
    exact ⟨by omega, noWrap_lits (by omega) trivial⟩
  next => cases hstop

end Rows

end Cing.Str
