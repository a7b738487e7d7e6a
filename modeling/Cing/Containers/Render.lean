/-
containers_string.c: bytes in hex and sizes with units. The dump of a row of bytes fits wherever its one check for room passes, and
the bytes can be read back from it. The text of a size does not say the size: no part is taken from the value before the next one,
and the position is not moved over the notes.
-/
import Cing.Containers.String

namespace Cing.Str

/-! ## Hex -/

/-- One of the two digits `_buf_marshal_byte_in_hex` writes. -/
def bufMarshalHalfInHex (i val : Nat) : StrM Unit :=
  if val < 10 then bufPut i (UInt8.ofNat (val + 48))
  else do
    kernelAssert (val < 16) "val < 16"
    bufPut i (UInt8.ofNat (u64Sub val 10 + 65))

/-- `_buf_marshal_byte_in_hex`. -/
def bufMarshalByteInHex (bufOff bufLen : Nat) (byte : UInt8) : StrM Unit := do
  kernelAssert (bufOff < u64Sub bufLen 2) "buf_off < (buf_len - 2)"
  bufMarshalHalfInHex bufOff ((byte.toNat >>> 4) &&& 0x0f)
  bufMarshalHalfInHex (u64 (bufOff + 1)) (byte.toNat &&& 0x0f)

/-- The loop of `str_buf_marshal_bytes_in_hex`: `buf_ptr` after `n` rounds. -/
def marshalHexLoop (bufOff bufLen : Nat) (str : List UInt8) : Nat → StrM Nat
  | 0 => return u64 (bufOff + 2)
  | n + 1 => do
    let bufPtr ← marshalHexLoop bufOff bufLen str n
    bufPut bufPtr 32
    bufMarshalByteInHex (u64 (bufPtr + 1)) bufLen (charAt str (n + 1))
    return u64 (u64 (bufPtr + 1) + 2)

/-- `str_buf_marshal_bytes_in_hex` of a buffer and a row of bytes, neither of them NULL. -/
def strBufMarshalBytesInHex (bufOff bufLen : Nat) (str : List UInt8) (strLen : Nat) : StrM Nat := do
  kernelAssert (strLen > 0) "str_len > 0"
  kernelAssert (bufLen > 0) "buf_len > 0"
  kernelAssert (bufOff < bufLen) "buf_off < buf_len"
  kernelAssert (u64Sub bufLen bufOff > u64Sub (u64 (strLen * 3)) 1) "(buf_len - buf_off) > (str_len * 3 - 1)"
  bufMarshalByteInHex bufOff bufLen (charAt str 0)
  let bufPtr ← marshalHexLoop bufOff bufLen str (strLen - 1)
  kernelAssert (bufPtr < bufLen) "buf_ptr < buf_len"
  return u64Sub bufPtr bufOff

/-- An upper-case hex digit. -/
def hexDigit (d : Nat) : UInt8 := UInt8.ofNat (if d < 10 then d + 48 else d + 55)

/-- The two digits of a byte. -/
def hexByte (byte : UInt8) : List UInt8 := [hexDigit (byte.toNat / 16), hexDigit (byte.toNat % 16)]

/-- The digits of the bytes, with a blank between two of them. -/
def hexText : List UInt8 → List UInt8
  | [] => []
  | [byte] => hexByte byte
  | byte :: l => hexByte byte ++ 32 :: hexText l

/-- What a hex digit stands for. -/
def unhexDigit (c : UInt8) : Nat := if c.toNat < 58 then c.toNat - 48 else c.toNat - 55

/-- Reads bytes back from pairs of digits, over the character behind each pair. -/
def unhexText : List UInt8 → List UInt8
  | [] => []
  | [_] => []
  | [hi, lo] => [UInt8.ofNat (unhexDigit hi * 16 + unhexDigit lo)]
  | hi :: lo :: _ :: l => UInt8.ofNat (unhexDigit hi * 16 + unhexDigit lo) :: unhexText l

variable {bufOff bufLen n : Nat} {l l' : List UInt8}

theorem unhexDigit_hexDigit (h : n < 16) : unhexDigit (hexDigit n) = n := by
  unfold unhexDigit hexDigit
  rw [UInt8.toNat_ofNat']
  split <;> split <;> omega

theorem unhexText_hexText (l : List UInt8) : unhexText (hexText l) = l := by
  have hbyte : ∀ byte : UInt8,
      UInt8.ofNat (unhexDigit (hexDigit (byte.toNat / 16)) * 16 + unhexDigit (hexDigit (byte.toNat % 16))) = byte := by
    intro byte
    have hlt := byte.toNat_lt
    rw [unhexDigit_hexDigit (by omega), unhexDigit_hexDigit (by omega),
      show byte.toNat / 16 * 16 + byte.toNat % 16 = byte.toNat by omega]
    exact UInt8.ofNat_toNat
  induction l using hexText.induct with
  | case1 => rfl
  | case2 byte =>
    show [_] = [byte]
    rw [hbyte]
  | case3 byte l hl ih =>
    rw [hexText.eq_3 byte l hl]
    show _ :: unhexText (hexText l) = _
    rw [hbyte, ih]

theorem hexText_length (l : List UInt8) : (hexText l).length = 3 * l.length - 1 := by
  induction l using hexText.induct with
  | case1 => rfl
  | case2 byte => rfl
  | case3 byte l hl ih =>
    have hpos : 0 < l.length := List.length_pos_iff.2 hl
    rw [hexText.eq_3 byte l hl, List.length_append, List.length_cons, List.length_cons, ih]
    show 2 + _ = _
    omega

/-- Text that goes on. -/
theorem hexText_concat (hl : l ≠ []) (byte : UInt8) : hexText (l ++ [byte]) = hexText l ++ 32 :: hexByte byte := by
  induction l using hexText.induct with
  | case1 => exact absurd rfl hl
  | case2 b => rfl
  | case3 b l hne ih =>
    rw [hexText.eq_3 b l hne, List.cons_append, hexText.eq_3 b (l ++ [byte]) (by simp), ih hne, List.append_assoc, List.cons_append]

theorem bufMarshalHalfInHex_run {val : Nat} (h : val < 16) (i : Nat) (s : StrState) :
    bufMarshalHalfInHex i val s = .ok () (wrote s i [hexDigit val]) := by
  unfold bufMarshalHalfInHex hexDigit
  by_cases hd : val < 10
  · rw [if_pos hd, if_pos hd, bufPut_run]
  · rw [if_neg hd, if_neg hd, Exec.bind_ok (kernelAssert_pos h _ s), bufPut_run, u64Sub_of_le (by omega) (by omega),
      show val - 10 + 65 = val + 55 by omega]

theorem bufMarshalByteInHex_run (hroom : bufOff + 2 < bufLen) (hlen : bufLen < 2 ^ 64) (byte : UInt8) (s : StrState) :
    bufMarshalByteInHex bufOff bufLen byte s = .ok () (wrote s bufOff (hexByte byte)) := by
  have hlt := byte.toNat_lt
  have hhi : (byte.toNat >>> 4) &&& 0x0f = byte.toNat / 16 := by
    rw [Nat.shiftRight_eq_div_pow, show (0x0f : Nat) = 2 ^ 4 - 1 by norm_num, Nat.and_two_pow_sub_one_eq_mod]
    omega
  have hlo : byte.toNat &&& 0x0f = byte.toNat % 16 := Nat.and_two_pow_sub_one_eq_mod byte.toNat 4
  unfold bufMarshalByteInHex
  rw [Exec.bind_ok (kernelAssert_pos (by rw [u64Sub_of_le (by omega) hlen]; omega) _ s), hhi, hlo,
    Exec.bind_ok (bufMarshalHalfInHex_run (by omega) _ s), u64_of_lt (by omega), bufMarshalHalfInHex_run (by omega)]
  exact congrArg (EStateM.Result.ok ()) (wrote_wrote s bufOff [hexDigit (byte.toNat / 16)] [hexDigit (byte.toNat % 16)])

/-- After `n` rounds the text of one byte more is there. -/
theorem marshalHexLoop_run (hn : n < l.length) (hroom : bufOff + 3 * n + 2 < bufLen) (hlen : bufLen < 2 ^ 64) (s : StrState) :
    marshalHexLoop bufOff bufLen l n (wrote s bufOff (hexText (l.take 1))) =
      .ok (bufOff + 3 * n + 2) (wrote s bufOff (hexText (l.take (n + 1)))) := by
  induction n with
  | zero =>
    rw [marshalHexLoop, u64_of_lt (by omega), Exec.pure_run, Nat.mul_zero, Nat.add_zero]
  | succ n ih =>
    have hcount : (hexText (l.take (n + 1))).length = 3 * n + 2 := by
      rw [hexText_length, List.length_take_of_le (by omega)]
      omega
    have hne : l.take (n + 1) ≠ [] := by
      intro he
      rw [he] at hcount
      cases hcount
    have hblank := wrote_wrote s bufOff (hexText (l.take (n + 1))) [32]
    have hbyte := wrote_wrote s bufOff (hexText (l.take (n + 1)) ++ [32]) (hexByte l[n + 1])
    rw [hcount, ← Nat.add_assoc] at hblank
    rw [List.length_append, hcount, List.length_singleton, List.append_assoc, List.singleton_append, ← hexText_concat hne,
      List.take_append_getElem, ← Nat.add_assoc, ← Nat.add_assoc] at hbyte
    rw [marshalHexLoop, Exec.bind_ok (ih (by omega) (by omega)), Exec.bind_ok (bufPut_run _ _ _), hblank,
      u64_of_lt (by omega : bufOff + 3 * n + 2 + 1 < 2 ^ 64), charAt_of_lt hn,
      Exec.bind_ok (bufMarshalByteInHex_run (by omega) hlen _ _), hbyte, u64_of_lt (by omega), Exec.pure_run]
    rfl

theorem strBufMarshalBytesInHex_run (hne : l ≠ []) (hoff : bufOff < bufLen) (hlen : bufLen < 2 ^ 64)
    (hroom : 3 * l.length - 1 < bufLen - bufOff) (s : StrState) :
    strBufMarshalBytesInHex bufOff bufLen l l.length s = .ok (3 * l.length - 1) (wrote s bufOff (hexText l)) := by
  have hpos : 0 < l.length := List.length_pos_iff.2 hne
  have hfirst : hexText (l.take 1) = hexByte l[0] := by
    rw [List.take_one, List.head?_eq_getElem?, List.getElem?_eq_getElem hpos]
    rfl
  have hloop := marshalHexLoop_run (l := l) (n := l.length - 1) (by omega)
    (by omega : bufOff + 3 * (l.length - 1) + 2 < bufLen) hlen s
  rw [Nat.sub_add_cancel hpos, List.take_length, hfirst] at hloop
  unfold strBufMarshalBytesInHex
  rw [Exec.bind_ok (kernelAssert_pos hpos _ s), Exec.bind_ok (kernelAssert_pos (by omega) _ s),
    Exec.bind_ok (kernelAssert_pos hoff _ s)]
  have hfit : u64Sub bufLen bufOff > u64Sub (u64 (l.length * 3)) 1 := by
    rw [u64Sub_of_le hoff.le hlen, u64_of_lt (by omega), u64Sub_of_le (by omega) (by omega)]
    omega
  rw [Exec.bind_ok (kernelAssert_pos hfit _ s), charAt_of_lt hpos, Exec.bind_ok (bufMarshalByteInHex_run (by omega) hlen _ s),
    Exec.bind_ok hloop, Exec.bind_ok (kernelAssert_pos (by omega) _ _), u64Sub_of_le (by omega) (by omega), Exec.pure_run]
  congr 1
  omega

/-- With room for its text and one byte more, every row of bytes is written as its text and nothing else, and the bytes can be read
back from the text. -/
theorem hex_dump_lossless (hne : l ≠ []) (hlen : bufLen < 2 ^ 64) (hoff : bufOff < bufLen)
    (hroom : bufLen - bufOff > 3 * l.length - 1) (s : StrState) :
    (hexText l).length = 3 * l.length - 1 ∧
      (∃ s', strBufMarshalBytesInHex bufOff bufLen l l.length s = .ok (3 * l.length - 1) s' ∧
        (∀ i (h : i < (hexText l).length), s'.buf (bufOff + i) = (hexText l)[i]) ∧
        ∀ x, x < bufOff ∨ bufOff + (3 * l.length - 1) ≤ x → s'.buf x = s.buf x) ∧
      unhexText (hexText l) = l ∧ ∀ l', hexText l' = hexText l → l' = l := by
  refine ⟨hexText_length l,
    ⟨_, strBufMarshalBytesInHex_run hne hoff hlen hroom s, fun i h => Bytes.splice_inside h, fun x hx => ?_⟩,
    unhexText_hexText l, fun l' he => ?_⟩
  · rw [← hexText_length l] at hx
    exact Bytes.splice_outside hx
  · rw [← unhexText_hexText l', he, unhexText_hexText]

theorem hex_dump_lossless_two : ∃ s', strBufMarshalBytesInHex 1 7 [0x0f, 0xa0] 2 strState₀ = .ok 5 s' ∧
    hexText [0x0f, 0xa0] = [48, 70, 32, 65, 48] := by
  obtain ⟨-, ⟨s', hrun, -, -⟩, -, -⟩ := hex_dump_lossless (l := [0x0f, 0xa0]) (by decide) (show 7 < 2 ^ 64 by decide)
    (show 1 < 7 by decide) (by decide) strState₀
  exact ⟨s', hrun, by decide⟩

/-! ## Sizes -/

/-- `_SIZE_UNITS`. -/
def sizeUnits : List Nat :=
  [1024 * 1024 * 1024 * 1024 * 1024 * 1024, 1024 * 1024 * 1024 * 1024 * 1024, 1024 * 1024 * 1024 * 1024, 1024 * 1024 * 1024,
    1024 * 1024, 1024]

/-- `_SIZE_NOTES`: ZB, PB, TB, GB, MB, KB. -/
def sizeNotes : List (List UInt8) := [[90, 66], [80, 66], [84, 66], [71, 66], [77, 66], [75, 66]]

section Size

variable (dbg : Bool) (bufOff bufLen val : Nat)

/-- The body of the loop of `str_buf_marshal_uint_in_size`: `buf_ptr` behind it. -/
def sizeRound (i bufPtr : Nat) : StrM Nat := do
  let part := val / sizeUnits.getD i 0
  if part > 0 then do
    let len ← strBufMarshalUint bufPtr bufLen part
    kernelAssertD dbg (u64 (u64 (bufPtr + len) + 2) ≤ bufLen) "(buf_ptr + 2) <= buf_len"
    let _ ← strBufMarshalStr (u64 (bufPtr + len)) bufLen (sizeNotes.getD i []) 2
    return u64 (bufPtr + len)
  else return bufPtr

/-- The first `n` rounds of the loop. -/
def sizeLoop : Nat → StrM Nat
  | 0 => return bufOff
  | n + 1 => do
    let bufPtr ← sizeLoop n
    sizeRound dbg bufLen val n bufPtr

/-- `str_buf_marshal_uint_in_size`. -/
def strBufMarshalUintInSize : StrM Nat := do
  kernelAssert (bufOff < bufLen) "buf_off < buf_len"
  let bufPtr ← sizeLoop dbg bufOff bufLen val sizeUnits.length
  kernelAssertD dbg (bufPtr ≤ bufLen) "buf_ptr <= buf_len"
  return u64Sub bufPtr bufOff

end Size

/-- The parts that are not zero, each with the note of its unit. -/
def sizeText (parts : List Nat) : List UInt8 :=
  (parts.zip sizeNotes).flatMap fun p => if p.1 = 0 then [] else decimal p.1 ++ p.2

/-- `r` characters from `bufOff` on are the text of parts that add up to the value without what is below 1024. -/
def SaysSize (val bufOff r : Nat) (s : StrState) : Prop :=
  ∃ parts : List Nat, parts.length = sizeUnits.length ∧ (List.zipWith (· * ·) parts sizeUnits).sum = val / 1024 * 1024 ∧
    r = (sizeText parts).length ∧ ∀ i (h : i < (sizeText parts).length), s.buf (bufOff + i) = (sizeText parts)[i]

variable {dbg : Bool} {val i d : Nat}

/-- How many digits a part has at most. -/
def sizeDigits : List Nat := [2, 5, 8, 11, 14, 17]

theorem size_part_lt (hval : val < 2 ^ 64) (hi : i < sizeUnits.length) : val / sizeUnits.getD i 0 < 10 ^ sizeDigits.getD i 0 := by
  have hi : i < 6 := hi
  interval_cases i <;> simp only [sizeUnits, sizeDigits, List.getD_cons_zero, List.getD_cons_succ] <;> omega

theorem size_note (hi : i < sizeUnits.length) : ∃ c, sizeNotes.getD i [] = [c, 66] := by
  have hi : i < 6 := hi
  interval_cases i <;> exact ⟨_, rfl⟩

theorem size_part_digits (hval : val < 2 ^ 64) (hi : i < sizeUnits.length) :
    (decimal (val / sizeUnits.getD i 0)).length ≤ sizeDigits.getD i 0 := by
  refine decimal_length_le (size_part_lt hval hi) ?_
  have hi : i < 6 := hi
  interval_cases i <;> decide

/-- A round with a part that is not zero: its digits, and the note behind them. -/
theorem sizeRound_run (dbg : Bool) (bufPtr i : Nat) (hval : val < 2 ^ 64) (hi : i < sizeUnits.length) (hlen : bufLen < 2 ^ 64)
    (hroom : bufPtr + sizeDigits.getD i 0 + 2 < bufLen) (hpart : 0 < val / sizeUnits.getD i 0) (s : StrState) :
    sizeRound dbg bufLen val i bufPtr s = .ok (bufPtr + (decimal (val / sizeUnits.getD i 0)).length)
      (wrote s bufPtr (decimal (val / sizeUnits.getD i 0) ++ sizeNotes.getD i [])) := by
  have hdig := size_part_digits hval hi
  have hlt : val / sizeUnits.getD i 0 < 2 ^ 64 := (Nat.div_le_self _ _).trans_lt hval
  obtain ⟨c, hnote⟩ := size_note hi
  have hfits : bufPtr + (decimal (val / sizeUnits.getD i 0)).length + (sizeNotes.getD i []).length < bufLen := by
    rw [hnote, List.length_cons, List.length_singleton]
    omega
  have hstr := strBufMarshalStr_run hfits hlen
  have htwo : (sizeNotes.getD i []).length = 2 := by rw [hnote]; rfl
  rw [htwo] at hstr
  unfold sizeRound
  rw [if_pos hpart, Exec.bind_ok (strBufMarshalUint_run hlt (by omega) hlen s),
    u64_of_lt (by omega : bufPtr + (decimal (val / sizeUnits.getD i 0)).length < 2 ^ 64), u64_of_lt (by omega),
    Exec.bind_ok (kernelAssertD_pos (by omega) dbg _ _), Exec.bind_ok (hstr _), wrote_wrote, Exec.pure_run]

theorem sizeDigits_sum (hn : n < sizeUnits.length) :
    (sizeDigits.take (n + 1)).sum = (sizeDigits.take n).sum + sizeDigits.getD n 0 ∧ (sizeDigits.take (n + 1)).sum ≤ 57 := by
  have hn : n < 6 := hn
  interval_cases n <;> decide

/-- The rounds return within the digits that the parts may have. -/
theorem sizeLoop_run (dbg : Bool) (n : Nat) (hval : val < 2 ^ 64) (hlen : bufLen < 2 ^ 64) (hn : n ≤ sizeUnits.length)
    (hroom : bufOff + 60 ≤ bufLen)
    (s : StrState) : ∃ p s', sizeLoop dbg bufOff bufLen val n s = .ok p s' ∧ bufOff ≤ p ∧ p ≤ bufOff + (sizeDigits.take n).sum := by
  induction n with
  | zero => exact ⟨bufOff, s, rfl, le_rfl, Nat.le_add_right _ _⟩
  | succ n ih =>
    obtain ⟨p, s₁, hrun, hlow, hhigh⟩ := ih (by omega)
    obtain ⟨hsum, hmax⟩ := sizeDigits_sum (n := n) (by omega)
    rw [sizeLoop, Exec.bind_ok hrun]
    by_cases hpart : 0 < val / sizeUnits.getD n 0
    · have hdig := size_part_digits (i := n) hval (by omega)
      exact ⟨_, _, sizeRound_run dbg p n hval (by omega) hlen (by omega) hpart s₁, by omega, by omega⟩
    · refine ⟨p, s₁, ?_, hlow, by omega⟩
      unfold sizeRound
      rw [if_neg hpart, Exec.pure_run]

/-- A text that says something ends with a note. -/
theorem sizeText_end (parts : List Nat) : sizeText parts = [] ∨ ∃ l, sizeText parts = l ++ [66] := by
  have hrows : ∀ rows : List (Nat × List UInt8), (∀ row ∈ rows, ∃ c, row.2 = [c, 66]) →
      (rows.flatMap fun p => if p.1 = 0 then [] else decimal p.1 ++ p.2) = [] ∨
        ∃ l, (rows.flatMap fun p => if p.1 = 0 then [] else decimal p.1 ++ p.2) = l ++ [66] := by
    intro rows
    induction rows with
    | nil => exact fun _ => .inl rfl
    | cons row rows ih =>
      intro h
      rw [List.flatMap_cons]
      rcases ih fun row' hrow => h row' (List.mem_cons_of_mem row hrow) with hnil | ⟨l, hl⟩
      · rw [hnil, List.append_nil]
        split
        · exact .inl rfl
        · obtain ⟨c, hc⟩ := h row List.mem_cons_self
          refine .inr ⟨decimal row.1 ++ [c], ?_⟩
          rw [hc, List.append_assoc]
          rfl
      · refine .inr ⟨(if row.1 = 0 then [] else decimal row.1 ++ row.2) ++ l, ?_⟩
        rw [hl, List.append_assoc]
  refine hrows _ fun row hrow => ?_
  have hmem := (List.of_mem_zip hrow).2
  simp only [sizeNotes, List.mem_cons, List.not_mem_nil, or_false] at hmem
  rcases hmem with h | h | h | h | h | h <;> exact ⟨_, h⟩

/-- Small values have no parts. -/
theorem sizeLoop_small (hval : val < 1024) (hn : n ≤ sizeUnits.length) (s : StrState) :
    sizeLoop dbg bufOff bufLen val n s = .ok bufOff s := by
  induction n with
  | zero => rfl
  | succ n ih =>
    have hn : n < 6 := hn
    have hpart : val / sizeUnits.getD n 0 = 0 := by
      refine Nat.div_eq_of_lt (hval.trans_le ?_)
      interval_cases n <;> decide
    rw [sizeLoop, Exec.bind_ok (ih (by omega))]
    unfold sizeRound
    rw [hpart, if_neg (lt_irrefl 0), Exec.pure_run]

/-- The text of a value with a part ends with a digit. -/
theorem size_not_said (hval : val < 2 ^ 64) (hge : 1024 ≤ val) (hlen : bufLen < 2 ^ 64)
    (hroom : bufOff + 60 ≤ bufLen) (s : StrState) :
    ¬ ∃ r s', strBufMarshalUintInSize dbg bufOff bufLen val s = .ok r s' ∧ SaysSize val bufOff r s' := by
  rintro ⟨r, s', hrun, parts, -, -, hr, htext⟩
  -- the last round is that of the unit 1024, and nothing is behind its digits but a note
  obtain ⟨p, s₁, hloop, hlow, hhigh⟩ := sizeLoop_run dbg 5 hval hlen (by decide) hroom s
  rw [show (sizeDigits.take 5).sum = 40 from rfl] at hhigh
  have hround := sizeRound_run dbg p 5 hval (by decide) hlen
    (by rw [show sizeDigits.getD 5 0 = 17 from rfl]; omega) (by rw [show sizeUnits.getD 5 0 = 1024 from rfl]; omega) s₁
  have hdig := size_part_digits (i := 5) hval (by decide)
  rw [show sizeDigits.getD 5 0 = 17 from rfl] at hdig
  have hpos := decimal_pos (val / sizeUnits.getD 5 0)
  unfold strBufMarshalUintInSize at hrun
  rw [Exec.bind_ok (kernelAssert_pos (by omega) _ s), show sizeUnits.length = 5 + 1 from rfl, sizeLoop, bind_assoc,
    Exec.bind_ok hloop, Exec.bind_ok hround, Exec.bind_ok (kernelAssertD_pos (by omega) dbg _ _),
    u64Sub_of_le (by omega) (by omega), Exec.pure_run] at hrun
  injection hrun with hr' hs'
  rcases sizeText_end parts with hnil | ⟨l, hl⟩
  · rw [hnil, List.length_nil] at hr
    omega
  · have hcount : (sizeText parts).length = l.length + 1 := by rw [hl, List.length_append, List.length_singleton]
    have hlast : s'.buf (bufOff + l.length) = 66 := by
      rw [htext l.length (by omega)]
      simp only [hl, List.getElem_append_right le_rfl, Nat.sub_self, List.getElem_singleton]
    have hdigit : s'.buf (bufOff + l.length) =
        (decimal (val / sizeUnits.getD 5 0))[(decimal (val / sizeUnits.getD 5 0)).length - 1] := by
      rw [← hs', show bufOff + l.length = p + ((decimal (val / sizeUnits.getD 5 0)).length - 1) by omega]
      refine (Bytes.splice_inside (by rw [List.length_append]; omega)).trans ?_
      rw [List.getElem_append_left (by omega)]
    have hchar := (decimal_numeral (val / sizeUnits.getD 5 0)).digits _
      (List.getElem_mem (n := (decimal (val / sizeUnits.getD 5 0)).length - 1) (by omega))
    rw [← hdigit, hlast] at hchar
    exact absurd hchar (by decide)

/-- In a buffer with 60 bytes, the text of a value says its size if and only if the value is below 1024. -/
theorem size_said_iff (hval : val < 2 ^ 64) (hlen : bufLen < 2 ^ 64) (hroom : bufOff + 60 ≤ bufLen) (s : StrState) :
    (∃ r s', strBufMarshalUintInSize dbg bufOff bufLen val s = .ok r s' ∧ SaysSize val bufOff r s') ↔ val < 1024 := by
  constructor
  · intro hsays
    by_contra hge
    exact size_not_said hval (by omega) hlen hroom s hsays
  · intro hsmall
    refine ⟨0, s, ?_, List.replicate 6 0, rfl, ?_, rfl, fun i h => absurd h (Nat.not_lt_zero i)⟩
    · unfold strBufMarshalUintInSize
      rw [Exec.bind_ok (kernelAssert_pos (by omega) _ s), Exec.bind_ok (sizeLoop_small hsmall le_rfl s),
        Exec.bind_ok (kernelAssertD_pos (by omega) dbg _ _), u64Sub_of_le le_rfl (by omega), Nat.sub_self, Exec.pure_run]
    · rw [Nat.div_eq_of_lt hsmall]
      rfl

theorem size_said_iff_small : ∃ r s', strBufMarshalUintInSize true 0 128 1000 strState₀ = .ok r s' ∧ SaysSize 1000 0 r s' :=
  (size_said_iff (by decide) (by decide) (by decide) strState₀).2 (by decide)

/-- A kilobyte is written as a digit. -/
theorem size_of_kilobyte : ¬ ∃ r s', strBufMarshalUintInSize true 0 128 1024 strState₀ = .ok r s' ∧ SaysSize 1024 0 r s' :=
  size_not_said (by decide) (by decide) (by decide) (by decide) strState₀

end Cing.Str
