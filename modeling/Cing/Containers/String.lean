/-
containers_string.c: strings and decimals in a buffer. A writer gets the buffer, the offset to start at and the length
of the buffer, and checks that there is room before it writes; a number is written from its last digit to its first, and
read back from the first to the last. Writing and reading agree for every 64-bit value.
-/
import Mathlib.Data.Nat.Digits.Lemmas
import Cing.Lib.Bytes
import Cing.Util.Math

namespace Cing

/-- A NUL-terminated string: the characters in front of the NUL. -/
structure CStr where
  chars : List UInt8
  noNul : 0 ∉ chars

/-- A variable argument. -/
inductive Arg where
  | str (str : CStr)
  | uint (val : UInt64)

/-- A buffer, which of its bytes were written, and the variable arguments not read yet. -/
structure StrState where
  buf : Bytes.Mem
  written : Nat → Bool
  va : List Arg

abbrev StrM := EStateM Stop StrState

namespace Str

/-! ## The code -/

/-- The character of a string at an index, its NUL included. -/
def charAt (l : List UInt8) (i : Nat) : UInt8 := l.getD i 0

/-- The loop of `str_len`, at most `n` rounds. -/
def strLenLoop (str : CStr) : Nat → Nat → Nat
  | 0, len => len
  | n + 1, len => if charAt str.chars len ≠ 0 then strLenLoop str n (len + 1) else len

/-- `str_len`. -/
def strLen (str : CStr) : Nat := strLenLoop str str.chars.length 0

/-- `str_char_is_digit`. -/
def strCharIsDigit (ch : UInt8) : Bool := 48 ≤ ch && ch ≤ 57

/-- `str_char_to_uint` of a digit. -/
def strCharToUint (ch : UInt8) : Nat := u64Sub ch.toNat 48

/-- The loop of `str_to_uint` over the next `n` characters: `str_ptr` and `val` at its end. -/
def strToUintLoop (str : Bytes.Mem) : Nat → Nat → Nat → Nat × Nat
  | 0, strPtr, val => (strPtr, val)
  | n + 1, strPtr, val =>
    if strCharIsDigit (str strPtr) then strToUintLoop str n (strPtr + 1) (u64 (val * 10 + strCharToUint (str strPtr)))
    else (strPtr, val)

/-- `str_to_uint`: the value and the length. -/
def strToUint {σ : Type} (str : Bytes.Mem) (strOff strLen : Nat) : EStateM Stop σ (Nat × Nat) := do
  let r := strToUintLoop str (strLen - strOff) strOff 0
  kernelAssert (strOff < r.1) "str_ptr > str_off"
  return (r.2, r.1 - strOff)

/-- A byte of the buffer is written. -/
def bufPut (i : Nat) (ch : UInt8) : StrM Unit :=
  modify fun s => { s with buf := Bytes.put s.buf i ch, written := fun x => x = i || s.written x }

/-- The loop of `str_buf_marshal_str`, after `n` rounds. -/
def marshalStrLoop (bufOff : Nat) (str : List UInt8) : Nat → StrM Unit
  | 0 => pure ()
  | n + 1 => do
    marshalStrLoop bufOff str n
    bufPut (u64 (bufOff + n)) (charAt str n)

/-- `str_buf_marshal_str`. -/
def strBufMarshalStr (bufOff bufLen : Nat) (str : List UInt8) (strLen : Nat) : StrM Nat := do
  kernelAssert (strLen < u64Sub bufLen bufOff) "(buf_len - buf_off) > str_len"
  marshalStrLoop bufOff str strLen
  return strLen

/-- The first loop of `str_buf_marshal_uint`. A 64-bit value has at most 20 digits. -/
def digitCntLoop : Nat → Nat → Nat → Nat
  | 0, _, digitCnt => digitCnt
  | n + 1, valPro, digitCnt => if 0 < valPro / 10 then digitCntLoop n (valPro / 10) (digitCnt + 1) else digitCnt + 1

/-- The second loop of `str_buf_marshal_uint`: `buf_off_pro` at its end. -/
def marshalUintLoop : Nat → Nat → Nat → StrM Nat
  | 0, _, _ => throw .hang
  | n + 1, bufOffPro, valPro => do
    bufPut bufOffPro (UInt8.ofNat (valPro % 10 + 48))
    if valPro / 10 = 0 then return bufOffPro else marshalUintLoop n (u64Sub bufOffPro 1) (valPro / 10)

/-- `str_buf_marshal_uint`. -/
def strBufMarshalUint (bufOff bufLen val : Nat) : StrM Nat := do
  let digitCnt := digitCntLoop 20 val 0
  kernelAssert (digitCnt < u64Sub bufLen bufOff) "(buf_len - buf_off) > digit_cnt"
  let bufOffPro ← marshalUintLoop 20 (u64Sub (u64 (bufOff + digitCnt)) 1) val
  kernelAssert (bufOffPro = bufOff) "buf_off_pro == buf_off"
  return digitCnt

/-! ## Strings -/

variable {bufOff bufLen val a n k v : Nat} {l : List UInt8} {s : StrState}

theorem charAt_of_lt (h : n < l.length) : charAt l n = l[n] := by
  unfold charAt
  rw [List.getD_eq_getElem?_getD, List.getElem?_eq_getElem h]
  rfl

theorem charAt_of_le (h : l.length ≤ n) : charAt l n = 0 := by
  unfold charAt
  rw [List.getD_eq_getElem?_getD, List.getElem?_eq_none h]
  rfl

theorem CStr.ne_zero (str : CStr) (h : n < str.chars.length) : str.chars[n] ≠ 0 := fun he =>
  str.noNul (he ▸ List.getElem_mem h)

theorem strLen_eq (str : CStr) : strLen str = str.chars.length := by
  have hloop : ∀ n len, len + n = str.chars.length → strLenLoop str n len = str.chars.length := by
    intro n
    induction n with
    | zero =>
      intro len h
      exact h
    | succ n ih =>
      intro len h
      have hne : charAt str.chars len ≠ 0 := by
        rw [charAt_of_lt (by omega)]
        exact CStr.ne_zero str (by omega)
      rw [strLenLoop, if_pos hne]
      exact ih (len + 1) (by omega)
  exact hloop _ 0 (Nat.zero_add _)

/-! ## Rows of the buffer -/

/-- The state after a row of bytes was written. -/
def wrote (s : StrState) (a : Nat) (l : List UInt8) : StrState :=
  { s with buf := Bytes.splice s.buf a l, written := fun x => (a ≤ x && x < a + l.length) || s.written x }

@[simp] theorem wrote_nil (s : StrState) (a : Nat) : wrote s a [] = s := by
  have hw : (fun x => (decide (a ≤ x) && decide (x < a + 0)) || s.written x) = s.written := by
    funext x
    have hnot : ¬ (a ≤ x ∧ x < a + 0) := by omega
    rw [← Bool.decide_and, decide_eq_false hnot, Bool.false_or]
  unfold wrote
  rw [Bytes.splice_nil, List.length_nil, hw]

/-- Two neighbouring rows are one. -/
theorem written_append (s : StrState) (a k k' : Nat) :
    (fun x => (decide (a + k ≤ x) && decide (x < a + k + k')) || ((decide (a ≤ x) && decide (x < a + k)) || s.written x)) =
      fun x => (decide (a ≤ x) && decide (x < a + (k + k'))) || s.written x := by
  funext x
  rw [← Bool.or_assoc, ← Bool.decide_and, ← Bool.decide_and, ← Bool.decide_and, ← Bool.decide_or]
  congr 2
  exact propext (by omega)

theorem wrote_wrote (s : StrState) (a : Nat) (l l' : List UInt8) : wrote (wrote s a l) (a + l.length) l' = wrote s a (l ++ l') := by
  unfold wrote
  rw [Bytes.splice_splice, List.length_append]
  exact congrArg (fun w => StrState.mk _ w s.va) (written_append s a l.length l'.length)

theorem wrote_written (s : StrState) (a : Nat) (l : List UInt8) (x : Nat) :
    (wrote s a l).written x = true ↔ (a ≤ x ∧ x < a + l.length) ∨ s.written x = true := by
  unfold wrote
  dsimp only
  rw [Bool.or_eq_true, Bool.and_eq_true, decide_eq_true_iff, decide_eq_true_iff]

theorem bufPut_run (i : Nat) (ch : UInt8) (s : StrState) : bufPut i ch s = .ok () (wrote s i [ch]) := by
  have hw : (fun x => decide (x = i) || s.written x) = fun x => (decide (i ≤ x) && decide (x < i + 1)) || s.written x := by
    funext x
    rw [← Bool.decide_and]
    congr 2
    exact propext (by omega)
  unfold bufPut wrote
  rw [Exec.modify_run, Bytes.splice_one, List.length_singleton, hw]

/-- A byte, then the row in front of it. -/
theorem wrote_back (s : StrState) (a : Nat) (l : List UInt8) (ch : UInt8) :
    wrote (wrote s (a + l.length) [ch]) a l = wrote s a (l ++ [ch]) := by
  unfold wrote
  rw [Bytes.splice_one, Bytes.splice_put, List.length_append, List.length_singleton]
  refine congrArg (fun w => StrState.mk _ w s.va) (Eq.trans ?_ (written_append s a l.length 1))
  funext x
  exact Bool.or_left_comm _ _ _

theorem marshalStrLoop_run (h : bufOff + n < 2 ^ 64) (hn : n ≤ l.length) (s : StrState) :
    marshalStrLoop bufOff l n s = .ok () (wrote s bufOff (l.take n)) := by
  induction n with
  | zero => rw [List.take_zero, wrote_nil]; rfl
  | succ n ih =>
    rw [marshalStrLoop, Exec.bind_ok (ih (by omega) (by omega)), u64_of_lt (by omega), bufPut_run, charAt_of_lt (by omega)]
    have hrow := wrote_wrote s bufOff (l.take n) [l[n]]
    rw [List.length_take_of_le (by omega), List.take_append_getElem] at hrow
    rw [hrow]

/-- `str_buf_marshal_str` of a whole string, if its check passes. Behind the buffer it does, as the difference wraps. -/
theorem strBufMarshalStr_checked (hroom : l.length < u64Sub bufLen bufOff) (hlt : bufOff + l.length < 2 ^ 64) (s : StrState) :
    strBufMarshalStr bufOff bufLen l l.length s = .ok l.length (wrote s bufOff l) := by
  unfold strBufMarshalStr
  rw [Exec.bind_ok (kernelAssert_pos hroom _ s), Exec.bind_ok (marshalStrLoop_run hlt le_rfl s), List.take_length, Exec.pure_run]

/-- A string for which there is room. -/
theorem strBufMarshalStr_run (hroom : bufOff + l.length < bufLen) (hlen : bufLen < 2 ^ 64) (s : StrState) :
    strBufMarshalStr bufOff bufLen l l.length s = .ok l.length (wrote s bufOff l) :=
  strBufMarshalStr_checked (by rw [u64Sub_of_le (by omega) hlen]; omega) (by omega) s

/-! ## Numerals -/

/-- The character of a digit. -/
def digit (d : Nat) : UInt8 := UInt8.ofNat (d + 48)

/-- The decimal numeral of a value. -/
def decimal (v : Nat) : List UInt8 := if v = 0 then [digit 0] else (Nat.digits 10 v).reverse.map digit

/-- The value of a row of digits. -/
def digitsVal (l : List UInt8) : Nat := l.foldl (fun v c => v * 10 + strCharToUint c) 0

theorem digit_toNat (h : n < 10) : (digit n).toNat = n + 48 := by
  unfold digit
  rw [UInt8.toNat_ofNat']
  omega

theorem strCharIsDigit_iff (c : UInt8) : strCharIsDigit c = true ↔ 48 ≤ c.toNat ∧ c.toNat ≤ 57 := by
  unfold strCharIsDigit
  rw [Bool.and_eq_true, decide_eq_true_iff, decide_eq_true_iff]
  exact Iff.rfl

theorem strCharIsDigit_digit (h : n < 10) : strCharIsDigit (digit n) = true := by
  rw [strCharIsDigit_iff, digit_toNat h]
  omega

theorem strCharToUint_digit (h : n < 10) : strCharToUint (digit n) = n := by
  unfold strCharToUint
  rw [digit_toNat h, u64Sub_of_le (by omega) (by omega)]
  omega

theorem strCharToUint_lt {c : UInt8} (h : strCharIsDigit c = true) : strCharToUint c < 10 := by
  obtain ⟨h1, h2⟩ := (strCharIsDigit_iff c).1 h
  unfold strCharToUint
  rw [u64Sub_of_le h1 (by omega)]
  omega

theorem decimal_of_lt (h : v < 10) : decimal v = [digit v] := by
  unfold decimal
  split
  · rename_i h0
    rw [h0]
  · rename_i h0
    rw [Nat.digits_of_lt 10 v h0 h]
    rfl

theorem decimal_of_le (h : 10 ≤ v) : decimal v = decimal (v / 10) ++ [digit (v % 10)] := by
  unfold decimal
  rw [if_neg (by omega), if_neg (by omega), Nat.digits_def' (by omega) (by omega), List.reverse_cons, List.map_append]
  rfl

theorem decimal_pos (v : Nat) : 0 < (decimal v).length := by
  by_cases h : v < 10
  · rw [decimal_of_lt h]
    exact Nat.one_pos
  · rw [decimal_of_le (by omega), List.length_append]
    exact Nat.lt_add_left _ Nat.one_pos

/-- Behind the last of two or more digits there is room for one less. -/
theorem digits_left {n v : Nat} (hv : v < 10 ^ (n + 1)) (hle : 10 ≤ v) : v / 10 < 10 ^ n ∧ 0 < n := by
  refine ⟨by rw [pow_succ] at hv; omega, Nat.pos_of_ne_zero fun hn => ?_⟩
  rw [hn] at hv
  omega

theorem decimal_length_le : ∀ {n v : Nat}, v < 10 ^ n → 0 < n → (decimal v).length ≤ n := by
  intro n
  induction n with
  | zero =>
    intro v _ hn
    exact absurd hn (lt_irrefl 0)
  | succ n ih =>
    intro v hv _
    by_cases hd : v < 10
    · rw [decimal_of_lt hd, List.length_singleton]
      exact Nat.le_add_left 1 n
    · obtain ⟨hrest, hn⟩ := digits_left hv (not_lt.1 hd)
      rw [decimal_of_le (by omega), List.length_append, List.length_singleton]
      exact Nat.succ_le_succ (ih hrest hn)

@[simp] theorem digitsVal_nil : digitsVal [] = 0 := rfl

theorem digitsVal_concat (l : List UInt8) (c : UInt8) : digitsVal (l ++ [c]) = digitsVal l * 10 + strCharToUint c := by
  unfold digitsVal
  rw [List.foldl_append, List.foldl_cons, List.foldl_nil]

/-- A row of digits for a value, as short as one can be. -/
structure Numeral (v : Nat) (l : List UInt8) : Prop where
  nonempty : l ≠ []
  digits : ∀ c ∈ l, strCharIsDigit c = true
  value : digitsVal l = v
  shortest : ∀ l', l' ≠ [] → (∀ c ∈ l', strCharIsDigit c = true) → digitsVal l' = v → l.length ≤ l'.length

/-- Cutting off the last digit leaves a numeral of the rest. -/
theorem decimal_numeral (v : Nat) : Numeral v (decimal v) := by
  induction v using Nat.strongRecOn with
  | ind v ih =>
    by_cases hv : v < 10
    · rw [decimal_of_lt hv]
      refine ⟨List.cons_ne_nil _ _, fun c hc => ?_, ?_, fun l' hl' _ _ => List.length_pos_iff.2 hl'⟩
      · rw [List.mem_singleton.1 hc]
        exact strCharIsDigit_digit hv
      · rw [← List.nil_append [digit v], digitsVal_concat, digitsVal_nil, strCharToUint_digit hv]
        omega
    · have ih := ih (v / 10) (by omega)
      rw [decimal_of_le (by omega)]
      refine ⟨List.append_ne_nil_of_right_ne_nil _ (List.cons_ne_nil _ _), fun c hc => ?_, ?_, fun l' hne hd hval => ?_⟩
      · rcases List.mem_append.1 hc with hc | hc
        · exact ih.digits c hc
        · rw [List.mem_singleton.1 hc]
          exact strCharIsDigit_digit (by omega)
      · rw [digitsVal_concat, ih.value, strCharToUint_digit (by omega)]
        omega
      · obtain ⟨l, c, rfl⟩ := (List.eq_nil_or_concat' l').resolve_left hne
        have hc := strCharToUint_lt (hd c (List.mem_append_right _ (List.mem_singleton.2 rfl)))
        rw [digitsVal_concat] at hval
        have hl : l ≠ [] := by
          rintro rfl
          rw [digitsVal_nil] at hval
          omega
        have hle := ih.shortest l hl (fun c' hc' => hd c' (List.mem_append_left _ hc')) (by omega)
        rw [List.length_append, List.length_append]
        exact Nat.add_le_add_right hle 1

/-! ## Writing a number -/

theorem digitCntLoop_eq : ∀ {n v : Nat} (k : Nat), v < 10 ^ n → 0 < n → digitCntLoop n v k = k + (decimal v).length := by
  intro n
  induction n with
  | zero =>
    intro v k _ hn
    exact absurd hn (lt_irrefl 0)
  | succ n ih =>
    intro v k hv _
    rw [digitCntLoop]
    split
    next hpos =>
      obtain ⟨hrest, hn⟩ := digits_left hv (by omega)
      rw [ih (k + 1) hrest hn, decimal_of_le (v := v) (by omega), List.length_append, List.length_singleton]
      omega
    next hpos =>
      rw [decimal_of_lt (v := v) (by omega)]
      rfl

/-- The digits are written from the last one to the first. -/
theorem marshalUintLoop_run : ∀ {n v : Nat}, v < 10 ^ n → 0 < n → a + (decimal v).length < 2 ^ 64 → ∀ s,
    marshalUintLoop n (a + (decimal v).length - 1) v s = .ok a (wrote s a (decimal v)) := by
  intro n
  induction n with
  | zero =>
    intro v _ hn
    exact absurd hn (lt_irrefl 0)
  | succ n ih =>
    intro v hv _ ha s
    rw [marshalUintLoop, Exec.bind_ok (bufPut_run _ _ s)]
    split
    next hzero =>
      have hd : v < 10 := by omega
      rw [decimal_of_lt hd, List.length_singleton, Nat.add_sub_cancel, Nat.mod_eq_of_lt hd, Exec.pure_run]
      rfl
    next hpos =>
      obtain ⟨hrest, hn⟩ := digits_left hv (by omega)
      have hlen := decimal_pos (v / 10)
      rw [decimal_of_le (v := v) (by omega), List.length_append, List.length_singleton] at ha ⊢
      rw [u64Sub_of_le (by omega) (by omega), ← Nat.add_assoc, Nat.add_sub_cancel, ih hrest hn (by omega)]
      exact congrArg (EStateM.Result.ok a) (wrote_back s a (decimal (v / 10)) (digit (v % 10)))

/-- `str_buf_marshal_uint`, if its check passes. -/
theorem strBufMarshalUint_checked (hval : val < 2 ^ 64) (hroom : (decimal val).length < u64Sub bufLen bufOff)
    (hlt : bufOff + (decimal val).length < 2 ^ 64) (s : StrState) :
    strBufMarshalUint bufOff bufLen val s = .ok (decimal val).length (wrote s bufOff (decimal val)) := by
  have hpos := decimal_pos val
  have hdig : val < 10 ^ 20 := by omega
  unfold strBufMarshalUint
  rw [digitCntLoop_eq 0 hdig (by omega), Nat.zero_add]
  rw [Exec.bind_ok (kernelAssert_pos hroom _ s), u64_of_lt (by omega),
    u64Sub_of_le (by omega) (by omega), Exec.bind_ok (marshalUintLoop_run hdig (by omega) (by omega) s),
    Exec.bind_ok (kernelAssert_pos rfl _ _), Exec.pure_run]

/-- A value for which there is room. -/
theorem strBufMarshalUint_run (hval : val < 2 ^ 64) (hroom : bufOff + (decimal val).length < bufLen) (hlen : bufLen < 2 ^ 64)
    (s : StrState) : strBufMarshalUint bufOff bufLen val s = .ok (decimal val).length (wrote s bufOff (decimal val)) :=
  strBufMarshalUint_checked hval (by rw [u64Sub_of_le (by omega) hlen]; omega) (by omega) s

/-! ## Reading a number -/

/-- The loop goes over the digits in front of it. -/
theorem strToUintLoop_digits {str : Bytes.Mem} (n : Nat) : ∀ {l : List UInt8} {p v : Nat}, (∀ c ∈ l, strCharIsDigit c = true) →
    (∀ i (h : i < l.length), str (p + i) = l[i]) →
    strToUintLoop str (l.length + n) p (u64 v) =
      strToUintLoop str n (p + l.length) (u64 (l.foldl (fun v c => v * 10 + strCharToUint c) v)) := by
  intro l
  induction l with
  | nil =>
    intro p v _ _
    rw [List.length_nil, Nat.zero_add]
    rfl
  | cons c l ih =>
    intro p v hd hl
    have hc : str p = c := hl 0 (Nat.zero_lt_succ _)
    have hstep : u64 (u64 v * 10 + strCharToUint c) = u64 (v * 10 + strCharToUint c) := by
      unfold u64
      omega
    have htail : ∀ i (h : i < l.length), str (p + 1 + i) = l[i] := by
      intro i h
      have hi := hl (i + 1) (Nat.succ_lt_succ h)
      rw [Nat.add_assoc, Nat.add_comm 1 i]
      exact hi
    rw [List.length_cons, Nat.add_right_comm, strToUintLoop, hc, if_pos (hd c List.mem_cons_self), hstep,
      ih (fun c' hc' => hd c' (List.mem_cons_of_mem c hc')) htail, List.foldl_cons, Nat.add_assoc, Nat.add_comm 1 l.length]

/-- `str_to_uint` of a row of digits that ends where the text does or where something else follows. -/
theorem strToUint_run {σ : Type} {str : Bytes.Mem} {p e : Nat} (hne : l ≠ []) (hd : ∀ c ∈ l, strCharIsDigit c = true)
    (hl : ∀ i (h : i < l.length), str (p + i) = l[i])
    (he : e = p + l.length ∨ p + l.length < e ∧ strCharIsDigit (str (p + l.length)) = false) (t : σ) :
    strToUint str p e t = .ok (u64 (digitsVal l), l.length) t := by
  have hpos := List.length_pos_iff.2 hne
  have hstop : strToUintLoop str (e - (p + l.length)) (p + l.length) (u64 (digitsVal l)) = (p + l.length, u64 (digitsVal l)) := by
    rcases he with rfl | ⟨hlt, hnot⟩
    · rw [Nat.sub_self]
      rfl
    · obtain ⟨k, hk⟩ := Nat.exists_eq_add_of_lt hlt
      rw [show e - (p + l.length) = k + 1 by omega, strToUintLoop, hnot]
      rfl
  have hloop : strToUintLoop str (e - p) p 0 = (p + l.length, u64 (digitsVal l)) := by
    rw [← hstop, show e - p = l.length + (e - (p + l.length)) by omega]
    exact strToUintLoop_digits _ (v := 0) hd hl
  unfold strToUint
  rw [hloop, Exec.bind_ok (kernelAssert_pos (by omega) _ t), Exec.pure_run, Nat.add_sub_cancel_left]

/-- With room for a value and one byte more, `str_buf_marshal_uint` writes the shortest numeral of the value and nothing
else, and `str_to_uint` reads the value and the length back. -/
theorem decimal_round_trip (hval : val < 2 ^ 64) (hlen : bufLen < 2 ^ 64) (hoff : bufOff ≤ bufLen)
    (hroom : (decimal val).length < bufLen - bufOff) (s : StrState) :
    Numeral val (decimal val) ∧ ∃ s', strBufMarshalUint bufOff bufLen val s = .ok (decimal val).length s' ∧
      (∀ i (h : i < (decimal val).length), s'.buf (bufOff + i) = (decimal val)[i]) ∧
      (∀ x, x < bufOff ∨ bufOff + (decimal val).length ≤ x → s'.buf x = s.buf x) ∧
      ∀ e, e = bufOff + (decimal val).length ∨
          bufOff + (decimal val).length < e ∧ strCharIsDigit (s'.buf (bufOff + (decimal val).length)) = false →
        ∀ t : StrState, strToUint s'.buf bufOff e t = .ok (val, (decimal val).length) t := by
  have hnum := decimal_numeral val
  have hin : ∀ i (h : i < (decimal val).length), (wrote s bufOff (decimal val)).buf (bufOff + i) = (decimal val)[i] := fun i h =>
    Bytes.splice_inside h
  refine ⟨hnum, wrote s bufOff (decimal val), strBufMarshalUint_run hval (by omega) hlen s, hin, fun x hx => ?_, fun e he t => ?_⟩
  · exact Bytes.splice_outside hx
  · rw [strToUint_run hnum.nonempty hnum.digits hin he t, hnum.value, u64_of_lt hval]

/-- A buffer of zeros. -/
def strState₀ : StrState := ⟨fun _ => 0, fun _ => false, []⟩

theorem decimal_round_trip_largest : ∃ s', strBufMarshalUint 3 24 (2 ^ 64 - 1) strState₀ = .ok 20 s' ∧
    strToUint s'.buf 3 23 s' = .ok (2 ^ 64 - 1, 20) s' := by
  have hcount : (decimal (2 ^ 64 - 1)).length = 20 := by decide +kernel
  obtain ⟨-, s', hrun, -, -, hread⟩ := decimal_round_trip (show 2 ^ 64 - 1 < 2 ^ 64 by decide) (show 24 < 2 ^ 64 by decide)
    (show 3 ≤ 24 by decide) (by rw [hcount]; decide) strState₀
  rw [hcount] at hrun hread
  exact ⟨s', hrun, hread 23 (.inl rfl) s'⟩

end Str

end Cing
