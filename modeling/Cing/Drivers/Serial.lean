/-
drivers_serial.c: the serial port of the log. A character is written when the status says that the transmitter is empty, which is
waited for. Whatever the device answers and however long it is waited for, what was written is a start of the text, and all of it if
the call returns.
-/
import Cing.Containers.String
import Cing.Drivers.Port

namespace Cing.Serial

open Port

/-! ## The code -/

/-- `byte_get`. -/
def byteGet (ival byte : Nat) : PortM UInt8 := do
  kernelAssert (byte < 4) "byte < 4"
  let v64 := (ival >>> (8 * byte)) &&& 0xff
  kernelAssert (v64 ≤ 255) "v64 <= U8_MAX"
  return UInt8.ofNat v64

/-- `_SPEED_115200_BAUDS`. -/
def speed115200Bauds : Nat := 1

/-- `serial_init`. -/
def serialInit : PortM Unit := do
  portWriteByte .serialCom1CmdLine 0x80
  portWriteByte .serialCom1Data (← byteGet speed115200Bauds 1)
  portWriteByte .serialCom1Data (← byteGet speed115200Bauds 0)
  portWriteByte .serialCom1CmdLine 0x03
  portWriteByte .serialCom1CmdFifo 0xc7
  portWriteByte .serialCom1CmdModem 0x0b

/-- `_fifo_transmit_is_empty`, of the status that is read, is false. -/
def transmitBusy (status : UInt8) : Bool := status &&& 0x20 == 0

/-- `_write_char`. -/
def writeChar (dev : Device) (n : Nat) (c : UInt8) : PortM Unit := do
  pollLoop dev .serialCom1StatusLine transmitBusy n
  portWriteByte .serialCom1 c

/-- `serial_write_str` of the `len` characters from `str` on; each of them is waited for at most `n` rounds. -/
def serialWriteStr (dev : Device) (n : Nat) (str : Bytes.Mem) (len : Nat) : PortM Unit :=
  (List.range len).forM fun i => writeChar dev n (str i)

/-! ## What is sent -/

/-- The write of a character. -/
def sends (c : UInt8) : UInt16 × UInt8 := (no .serialCom1, c)

/-- Every write in a trace comes right after a read of a status that says that the transmitter is empty. -/
def Ready (l : List PortOp) : Prop :=
  ∀ l₁ l₂ no byte, l = l₁ ++ .write no byte :: l₂ →
    ∃ l₀ b, l₁ = l₀ ++ [.read (Port.no .serialCom1StatusLine) b] ∧ transmitBusy b = false

variable {dev : Device} {n : Nat} {l l' : List PortOp} {c : UInt8} {t : List PortOp}

theorem ready_nil : Ready [] := fun l₁ _ _ _ h => absurd h.symm (List.append_ne_nil_of_right_ne_nil l₁ (List.cons_ne_nil _ _))

/-- Reads of a busy status at the end. -/
theorem Ready.busy (h : Ready l) (hbusy : ∀ op ∈ l', busyRead .serialCom1StatusLine transmitBusy op) : Ready (l ++ l') := by
  intro l₁ l₂ no byte he
  have hno : .write no byte ∉ l' := fun hmem => by
    obtain ⟨b, hb, -⟩ := hbusy _ hmem
    cases hb
  rcases List.append_eq_append_iff.1 he with ⟨k, rfl, hk⟩ | ⟨k, hl, hk⟩
  · exact absurd (hk ▸ List.mem_append_right k List.mem_cons_self) hno
  · cases k with
    | nil =>
      rw [List.nil_append] at hk
      exact absurd (hk ▸ List.mem_cons_self) hno
    | cons op k =>
      obtain ⟨rfl, -⟩ := List.cons.inj hk
      exact h l₁ k no byte hl

/-- A character that was waited for. -/
theorem Ready.char (h : Ready l) {b : UInt8} (hb : transmitBusy b = false) (no : UInt16) (c : UInt8) :
    Ready (l ++ [.read (Port.no .serialCom1StatusLine) b, .write no c]) := by
  intro l₁ l₂ no' byte he
  rcases List.append_eq_append_iff.1 he with ⟨k, rfl, hk⟩ | ⟨k, hl, hk⟩
  · match k, hk with
    | [op], hk =>
      obtain ⟨rfl, -⟩ := List.cons.inj hk
      exact ⟨l, b, rfl, hb⟩
    | op :: op' :: k, hk => simp at hk
  · cases k with
    | nil => cases hk
    | cons op k =>
      obtain ⟨rfl, -⟩ := List.cons.inj hk
      exact h l₁ k no' byte hl

/-- The trace gets longer by `new`, which is ready throughout and writes `cs`. -/
structure Sends (t t' : List PortOp) (cs : List UInt8) : Prop where
  grown : ∃ new, t' = t ++ new ∧ Ready new ∧ writes new = cs.map sends

theorem Sends.refl (t : List PortOp) : Sends t t [] := ⟨[], (List.append_nil t).symm, ready_nil, rfl⟩

/-- One character: it is sent, or the device was busy for all the rounds. -/
theorem writeChar_cases (dev : Device) (n : Nat) (c : UInt8) {t t₁ : List PortOp} {cs : List UInt8} (h : Sends t t₁ cs) :
    (∃ t', writeChar dev n c t₁ = .ok () t' ∧ Sends t t' (cs ++ [c])) ∨ ∃ t', writeChar dev n c t₁ = .error .hang t' ∧
      Sends t t' cs := by
  obtain ⟨new, rfl, hready, hwrites⟩ := h.grown
  unfold writeChar
  rcases pollLoop_cases dev .serialCom1StatusLine transmitBusy n (t ++ new) with ⟨t', hrun, hpolls⟩ | ⟨t', hrun, hwaits⟩
  · obtain ⟨l, b, rfl, hb, hl⟩ := hpolls.reads
    refine .inl ⟨_, Exec.bind_ok hrun,
      new ++ l ++ [.read _ b, .write (no .serialCom1) c], by simp, (hready.busy hl).char hb _ c, ?_⟩
    rw [writes_append, writes_append, writes_busy hl, List.append_nil, hwrites, List.map_append]
    rfl
  · obtain ⟨l, rfl, hl⟩ := hwaits.reads
    refine .inr ⟨t ++ new ++ l, by rw [Exec.bind_error hrun], new ++ l, List.append_assoc t new l, hready.busy hl, ?_⟩
    rw [writes_append, writes_busy hl, List.append_nil, hwrites]

/-- The characters of a list, from a trace that sent some already. -/
theorem writeAll_cases (dev : Device) (n : Nat) (str : Bytes.Mem) (is : List Nat) :
    ∀ {t₁ : List PortOp} {cs : List UInt8}, Sends t t₁ cs →
    (∃ t', is.forM (fun i => writeChar dev n (str i)) t₁ = .ok () t' ∧ Sends t t' (cs ++ is.map str)) ∨
      ∃ t' k, is.forM (fun i => writeChar dev n (str i)) t₁ = .error .hang t' ∧ k < is.length ∧
        Sends t t' (cs ++ (is.take k).map str) := by
  induction is with
  | nil =>
    intro t₁ cs h
    exact .inl ⟨t₁, rfl, by rwa [List.map_nil, List.append_nil]⟩
  | cons i is ih =>
    intro t₁ cs h
    rcases writeChar_cases dev n (str i) h with ⟨t₂, hrun, hsent⟩ | ⟨t₂, hrun, hsent⟩
    · rw [Exec.forM_cons_ok (f := fun i => writeChar dev n (str i)) hrun]
      rcases ih hsent with ⟨t', hrest, hall⟩ | ⟨t', k, hrest, hk, hsome⟩
      · exact .inl ⟨t', hrest, by rwa [List.append_assoc] at hall⟩
      · exact .inr ⟨t', k + 1, hrest, Nat.succ_lt_succ hk, by rwa [List.append_assoc] at hsome⟩
    · refine .inr ⟨t₂, 0, Exec.forM_cons_error (f := fun i => writeChar dev n (str i)) hrun is, Nat.zero_lt_succ _, ?_⟩
      rwa [List.take_zero, List.map_nil, List.append_nil]

/-- The device gets ready whenever it is waited for. -/
def GetsReady (dev : Device) : Prop := ∀ t, ∃ t', Polls dev .serialCom1StatusLine transmitBusy t t'

/-- However the device answers and however long each character is waited for: the call writes a start of the text, in order and
without a character lost or sent twice, each of them right after a status that says the transmitter is empty; it is the whole text
if and only if the call returns. A device that gets ready whenever it is waited for gets the whole text, if only it is waited for
long enough. -/
theorem serial_write_sends (dev : Device) (str : Bytes.Mem) (len : Nat) (t : List PortOp) :
    (∀ n, ∃ k ≤ len, Sends t (Exec.final (serialWriteStr dev n str len t)) ((List.range k).map str) ∧
      (Exec.stops (serialWriteStr dev n str len t) = none ↔ k = len)) ∧
    (GetsReady dev → ∃ m, ∀ n, m ≤ n → ∃ t', serialWriteStr dev n str len t = .ok () t') := by
  refine ⟨fun n => ?_, fun hready => ?_⟩
  · rcases writeAll_cases dev n str (List.range len) (Sends.refl t) with ⟨t', hrun, hall⟩ | ⟨t', k, hrun, hk, hsome⟩
    · have hrun' : serialWriteStr dev n str len t = .ok () t' := hrun
      rw [hrun']
      exact ⟨len, le_rfl, hall, iff_of_true rfl rfl⟩
    · have hrun' : serialWriteStr dev n str len t = .error .hang t' := hrun
      rw [List.length_range] at hk
      rw [List.nil_append, List.take_range, Nat.min_eq_left hk.le] at hsome
      rw [hrun']
      exact ⟨k, hk.le, hsome, iff_of_false nofun hk.ne⟩
  · unfold serialWriteStr
    induction List.range len generalizing t with
    | nil => exact ⟨0, fun n _ => ⟨t, rfl⟩⟩
    | cons i is ih =>
      obtain ⟨t₁, hpolls⟩ := hready t
      obtain ⟨m, hm⟩ := hpolls.run
      obtain ⟨m', hm'⟩ := ih (t₁ ++ [.write (no .serialCom1) (str i)])
      refine ⟨max m m', fun n hn => ?_⟩
      obtain ⟨t', hrest⟩ := hm' n (by omega)
      have hchar : writeChar dev n (str i) t = .ok () (t₁ ++ [.write (no .serialCom1) (str i)]) := by
        unfold writeChar
        rw [Exec.bind_ok (hm n (by omega))]
        rfl
      exact ⟨t', (Exec.forM_cons_ok (f := fun i => writeChar dev n (str i)) hchar is).trans hrest⟩

/-- A device that is busy until it was asked once. -/
def slowDevice : Device := fun t _ => match t.getLast? with
  | some (.read _ _) => 0x20
  | _ => 0

theorem slowDevice_getsReady : GetsReady slowDevice := by
  intro t
  cases hbusy : transmitBusy (slowDevice t (no .serialCom1StatusLine)) with
  | false => exact ⟨_, .ready hbusy⟩
  | true =>
    have hasked : slowDevice (afterRead slowDevice .serialCom1StatusLine t) (no .serialCom1StatusLine) = 0x20 := by
      rw [slowDevice, afterRead, List.getLast?_concat]
    refine ⟨_, .again hbusy (.ready ?_)⟩
    rw [hasked]
    decide

/-- The port is set up, and two characters follow. -/
theorem serial_write_sends_slow : GetsReady slowDevice ∧ ∃ m, ∀ n, m ≤ n → ∃ t',
    (do serialInit; serialWriteStr slowDevice n (fun i => if i = 0 then 111 else 107) 2 : PortM Unit) [] = .ok () t' ∧
    writes t' = [(0x3fb, 0x80), (0x3f9, 0), (0x3f9, 1), (0x3fb, 0x03), (0x3fa, 0xc7), (0x3fc, 0x0b), (0x3f8, 111),
      (0x3f8, 107)] := by
  have hinit : serialInit [] = .ok () (Exec.final (serialInit [])) := Exec.ok_of_isOk rfl
  obtain ⟨hsent, hall⟩ := serial_write_sends slowDevice (fun i => if i = 0 then 111 else 107) 2 (Exec.final (serialInit []))
  obtain ⟨m, hm⟩ := hall slowDevice_getsReady
  refine ⟨slowDevice_getsReady, m, fun n hn => ?_⟩
  obtain ⟨t', hrun⟩ := hm n hn
  obtain ⟨k, -, hk, hiff⟩ := hsent n
  rw [hrun] at hk hiff
  rw [hiff.1 rfl] at hk
  obtain ⟨new, rfl, -, hwrites⟩ := hk.grown
  refine ⟨_, (Exec.bind_ok hinit).trans hrun, ?_⟩
  rw [writes_append, hwrites]
  rfl

end Cing.Serial
