/-
kernel_panic.c: what runs when the kernel stops. The path has a number printer of its own, which asserts nothing: it writes an error
marker into a buffer that is too short, and otherwise the digits that `str_buf_marshal_uint` writes, and a NUL.
-/
import Cing.Containers.String

namespace Cing.Kernel

open Str

/-! ## _unsigned_to_str -/

/-- The second loop of `_unsigned_to_str`. The offset is decremented before the loop is left, below zero at the end. -/
def unsignedLoop : Nat → Nat → Nat → StrM Unit
  | 0, _, _ => throw .hang
  | n + 1, bufOff, uval => do
    bufPut bufOff (UInt8.ofNat (uval % 10 + 48))
    if uval / 10 = 0 then return () else unsignedLoop n (u64Sub bufOff 1) (uval / 10)

/-- `_unsigned_to_str`. -/
def unsignedToStr (uval bufCap : Nat) : StrM Unit := do
  let digitCnt := digitCntLoop 20 uval 0
  if u64 (digitCnt + 1) > bufCap then
    if bufCap ≥ 3 then do
      bufPut 0 69
      bufPut 1 82
      bufPut 2 0
    else if bufCap = 2 then do
      bufPut 0 69
      bufPut 1 0
    else if bufCap = 1 then
      bufPut 0 69
    else return ()
  else do
    unsignedLoop 20 (u64Sub digitCnt 1) uval
    bufPut digitCnt 0

/-- The marker a buffer has room for: `ER` and a NUL, `E` and a NUL, `E`, or nothing. -/
def errorMarker : Nat → List UInt8
  | 0 => []
  | 1 => [69]
  | 2 => [69, 0]
  | _ + 3 => [69, 82, 0]

variable {uval bufCap : Nat}

theorem errorMarker_length_le (bufCap : Nat) : (errorMarker bufCap).length ≤ bufCap := by
  match bufCap with
  | 0 => exact le_rfl
  | 1 => exact le_rfl
  | 2 => exact le_rfl
  | n + 3 => exact Nat.le_add_left 3 n

/-- The digits are written from the last one to the first. -/
theorem unsignedLoop_run : ∀ {n v : Nat}, v < 10 ^ n → 0 < n → (decimal v).length < 2 ^ 64 → ∀ s,
    unsignedLoop n ((decimal v).length - 1) v s = .ok () (wrote s 0 (decimal v)) := by
  intro n
  induction n with
  | zero =>
    intro v _ hn
    exact absurd hn (lt_irrefl 0)
  | succ n ih =>
    intro v hv _ ha s
    rw [unsignedLoop, Exec.bind_ok (bufPut_run _ _ s)]
    split
    next hzero =>
      have hd : v < 10 := by omega
      rw [decimal_of_lt hd, List.length_singleton, Nat.mod_eq_of_lt hd, Exec.pure_run]
      rfl
    next hpos =>
      obtain ⟨hrest, hn⟩ := digits_left hv (by omega)
      have hlen := decimal_pos (v / 10)
      have hback := wrote_back s 0 (decimal (v / 10)) (digit (v % 10))
      rw [Nat.zero_add] at hback
      rw [decimal_of_le (v := v) (by omega), List.length_append, List.length_singleton] at ha ⊢
      rw [Nat.add_sub_cancel, u64Sub_of_le (by omega) (by omega), ih hrest hn (by omega)]
      exact congrArg (EStateM.Result.ok ()) hback

/-- A buffer with room gets the digits and a NUL. -/
theorem unsignedToStr_run (hval : uval < 2 ^ 64) (hcap : (decimal uval).length < bufCap) (hlt : bufCap < 2 ^ 64) (s : StrState) :
    unsignedToStr uval bufCap s = .ok () (wrote (wrote s 0 (decimal uval)) (decimal uval).length [0]) := by
  have hpos := decimal_pos uval
  have hdig : uval < 10 ^ 20 := by omega
  unfold unsignedToStr
  rw [digitCntLoop_eq 0 hdig (by omega), Nat.zero_add, u64_of_lt (by omega), if_neg (by omega), u64Sub_of_le (by omega) (by omega),
    Exec.bind_ok (unsignedLoop_run hdig (by omega) (by omega) s), bufPut_run]

/-- One that is too short gets the marker. -/
theorem unsignedToStr_short (hval : uval < 2 ^ 64) (hcap : bufCap ≤ (decimal uval).length) (s : StrState) :
    unsignedToStr uval bufCap s = .ok () (wrote s 0 (errorMarker bufCap)) := by
  have hdig : uval < 10 ^ 20 := by omega
  have hcount := decimal_length_le hdig (by omega)
  unfold unsignedToStr
  rw [digitCntLoop_eq 0 hdig (by omega), Nat.zero_add, u64_of_lt (by omega), if_pos (by omega)]
  match bufCap with
  | 0 => rw [if_neg (by omega), if_neg (by omega), if_neg (by omega), errorMarker, wrote_nil, Exec.pure_run]
  | 1 => rw [if_neg (by omega), if_neg (by omega), if_pos rfl, bufPut_run, errorMarker]
  | 2 =>
    rw [if_neg (by omega), if_pos rfl, Exec.bind_ok (bufPut_run _ _ s), bufPut_run, errorMarker]
    exact congrArg (EStateM.Result.ok ()) (wrote_wrote s 0 [69] [0])
  | n + 3 =>
    rw [if_pos (by omega), Exec.bind_ok (bufPut_run _ _ s), Exec.bind_ok (bufPut_run _ _ _), bufPut_run, errorMarker]
    have hrow : wrote (wrote s 0 [69]) 1 [82] = wrote s 0 [69, 82] := wrote_wrote s 0 [69] [82]
    rw [hrow]
    exact congrArg (EStateM.Result.ok ()) (wrote_wrote s 0 [69, 82] [0])

/-- For every value and every capacity nothing is written behind the buffer; with room, what is written is what
`str_buf_marshal_uint` writes and a NUL, and else the marker. -/
theorem panic_number_agrees (hval : uval < 2 ^ 64) (hcap : bufCap < 2 ^ 64) (s : StrState) :
    ∃ s', unsignedToStr uval bufCap s = .ok () s' ∧ (∀ x, s'.written x = true → s.written x = true ∨ x < bufCap) ∧
      ((decimal uval).length < bufCap → ∃ s₁, strBufMarshalUint 0 bufCap uval s = .ok (decimal uval).length s₁ ∧
        s' = wrote s₁ (decimal uval).length [0]) ∧
      (bufCap ≤ (decimal uval).length → s' = wrote s 0 (errorMarker bufCap)) := by
  by_cases hroom : (decimal uval).length < bufCap
  · refine ⟨_, unsignedToStr_run hval hroom hcap s, fun x hx => ?_, fun _ => ⟨_, strBufMarshalUint_run hval (by omega) hcap s, rfl⟩,
      fun hle => absurd hroom (by omega)⟩
    rw [wrote_written, wrote_written, List.length_singleton] at hx
    rcases hx with hx | hx | hx
    · exact .inr (by omega)
    · exact .inr (by omega)
    · exact .inl hx
  · refine ⟨_, unsignedToStr_short hval (by omega) s, fun x hx => ?_, fun hlt => absurd hlt hroom, fun _ => rfl⟩
    have hle := errorMarker_length_le bufCap
    rw [wrote_written] at hx
    rcases hx with hx | hx
    · exact .inr (by omega)
    · exact .inl hx

theorem panic_number_agrees_line : ∃ s s', strBufMarshalUint 0 128 4711 strState₀ = .ok 4 s ∧
    unsignedToStr 4711 128 strState₀ = .ok () s' ∧ s' = wrote s 4 [0] := by
  have hcount : (decimal 4711).length = 4 := by decide +kernel
  obtain ⟨s', hrun, -, hroom, -⟩ := panic_number_agrees (show 4711 < 2 ^ 64 by decide) (show 128 < 2 ^ 64 by decide) strState₀
  obtain ⟨s, hmarshal, hs'⟩ := hroom (by rw [hcount]; decide)
  rw [hcount] at hmarshal hs'
  exact ⟨s, s', hmarshal, hrun, hs'⟩

end Cing.Kernel
