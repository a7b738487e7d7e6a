/-
drivers_port.c: what goes over the ports. A device is whatever answers: a byte for a read of a port, after all that was read and
written before. A driver that waits reads a status until the device is ready; the loop returns if and only if the device gets ready,
and what it leaves behind are reads of a busy status and one of a ready one.
-/
import Cing.Kernel.Panic

namespace Cing

/-- `port_no_t`, as far as it is used. -/
inductive PortNo where
  | picMasterCmd
  | picMasterData
  | picSlaveCmd
  | picSlaveData
  | keyboardCmd
  | keyboardData
  | serialCom1
  | serialCom1Data
  | serialCom1CmdFifo
  | serialCom1CmdLine
  | serialCom1CmdModem
  | serialCom1StatusLine
deriving DecidableEq, Repr

/-- A byte that went over a port. -/
inductive PortOp where
  | read (no : UInt16) (byte : UInt8)
  | write (no : UInt16) (byte : UInt8)
deriving DecidableEq, Repr

/-- Code on the ports, with all that went over them. -/
abbrev PortM := EStateM Stop (List PortOp)

/-- What a read of a port gets, after what went over the ports before. -/
abbrev Device := List PortOp → UInt16 → UInt8

namespace Port

/-! ## The code -/

/-- The number of a port. -/
def no : PortNo → UInt16
  | .picMasterCmd => 0x20
  | .picMasterData => 0x21
  | .picSlaveCmd => 0xa0
  | .picSlaveData => 0xa1
  | .keyboardCmd => 0x64
  | .keyboardData => 0x60
  | .serialCom1 => 0x3f8
  | .serialCom1Data => 0x3f8 + 1
  | .serialCom1CmdFifo => 0x3f8 + 2
  | .serialCom1CmdLine => 0x3f8 + 3
  | .serialCom1CmdModem => 0x3f8 + 4
  | .serialCom1StatusLine => 0x3f8 + 5

/-- `port_write_byte`. -/
def portWriteByte (port : PortNo) (data : UInt8) : PortM Unit := modify fun t => t ++ [.write (no port) data]

/-- `port_read_byte`. -/
def portReadByte (dev : Device) (port : PortNo) : PortM UInt8 := do
  let t ← get
  set (t ++ [.read (no port) (dev t (no port))])
  return dev t (no port)

/-- A loop that reads a status until it is not `busy`, at most `n` rounds. -/
def pollLoop (dev : Device) (port : PortNo) (busy : UInt8 → Bool) : Nat → PortM Unit
  | 0 => throw .hang
  | n + 1 => do
    let status ← portReadByte dev port
    if busy status then pollLoop dev port busy n else pure ()

/-! ## Waiting -/

/-- What one more read of a port leaves behind. -/
def afterRead (dev : Device) (port : PortNo) (t : List PortOp) : List PortOp := t ++ [.read (no port) (dev t (no port))]

/-- The device gets ready: reads of a busy status, then one of a ready one. -/
inductive Polls (dev : Device) (port : PortNo) (busy : UInt8 → Bool) : List PortOp → List PortOp → Prop
  | ready {t : List PortOp} : busy (dev t (no port)) = false → Polls dev port busy t (afterRead dev port t)
  | again {t t' : List PortOp} : busy (dev t (no port)) = true → Polls dev port busy (afterRead dev port t) t' →
      Polls dev port busy t t'

/-- Reads of a busy status, some number of them. -/
inductive Waits (dev : Device) (port : PortNo) (busy : UInt8 → Bool) : List PortOp → List PortOp → Prop
  | none (t : List PortOp) : Waits dev port busy t t
  | again {t t' : List PortOp} : busy (dev t (no port)) = true → Waits dev port busy (afterRead dev port t) t' →
      Waits dev port busy t t'

variable {dev : Device} {port : PortNo} {busy : UInt8 → Bool} {t t' : List PortOp} {n : Nat}

theorem portReadByte_run (dev : Device) (port : PortNo) (t : List PortOp) :
    portReadByte dev port t = .ok (dev t (no port)) (afterRead dev port t) := rfl

theorem pollLoop_ready (h : busy (dev t (no port)) = false) (n : Nat) :
    pollLoop dev port busy (n + 1) t = .ok () (afterRead dev port t) := by
  rw [pollLoop, Exec.bind_ok (portReadByte_run dev port t), if_neg (by rw [h]; exact Bool.false_ne_true), Exec.pure_run]

theorem pollLoop_busy (h : busy (dev t (no port)) = true) (n : Nat) :
    pollLoop dev port busy (n + 1) t = pollLoop dev port busy n (afterRead dev port t) := by
  rw [pollLoop, Exec.bind_ok (portReadByte_run dev port t), if_pos h]

/-- However many rounds: the loop returned with a device that got ready, or the device was busy in every one of them. -/
theorem pollLoop_cases (dev : Device) (port : PortNo) (busy : UInt8 → Bool) (n : Nat) (t : List PortOp) :
    (∃ t', pollLoop dev port busy n t = .ok () t' ∧ Polls dev port busy t t') ∨
      ∃ t', pollLoop dev port busy n t = .error .hang t' ∧ Waits dev port busy t t' := by
  induction n generalizing t with
  | zero => exact .inr ⟨t, rfl, .none t⟩
  | succ n ih =>
    cases h : busy (dev t (no port)) with
    | false => exact .inl ⟨_, pollLoop_ready h n, .ready h⟩
    | true =>
      rw [pollLoop_busy h]
      rcases ih (afterRead dev port t) with ⟨t', hrun, hpolls⟩ | ⟨t', hrun, hwaits⟩
      · exact .inl ⟨t', hrun, .again h hpolls⟩
      · exact .inr ⟨t', hrun, .again h hwaits⟩

/-- If the device gets ready, then the loop returns in any number of rounds that is large enough. -/
theorem Polls.run (h : Polls dev port busy t t') : ∃ k, ∀ n, k ≤ n → pollLoop dev port busy n t = .ok () t' := by
  induction h with
  | ready h =>
    refine ⟨1, fun n hn => ?_⟩
    obtain ⟨n, rfl⟩ := Nat.exists_eq_add_of_le' hn
    exact pollLoop_ready h n
  | again h _ ih =>
    obtain ⟨k, hk⟩ := ih
    refine ⟨k + 1, fun n hn => ?_⟩
    obtain ⟨n, rfl⟩ := Nat.exists_eq_add_of_le' hn
    rw [show n + (k + 1) = n + k + 1 by omega, pollLoop_busy h]
    exact hk (n + k) (by omega)

/-- What is read while a device is busy. -/
def busyRead (port : PortNo) (busy : UInt8 → Bool) (op : PortOp) : Prop := ∃ b, op = .read (no port) b ∧ busy b = true

theorem Waits.reads (h : Waits dev port busy t t') : ∃ l, t' = t ++ l ∧ ∀ op ∈ l, busyRead port busy op := by
  induction h with
  | none t => exact ⟨[], (List.append_nil t).symm, nofun⟩
  | again h _ ih =>
    obtain ⟨l, rfl, hl⟩ := ih
    exact ⟨_ :: l, List.append_assoc .., List.forall_mem_cons.2 ⟨⟨_, rfl, h⟩, hl⟩⟩

theorem Polls.reads (h : Polls dev port busy t t') :
    ∃ l b, t' = t ++ l ++ [.read (no port) b] ∧ busy b = false ∧ ∀ op ∈ l, busyRead port busy op := by
  induction h with
  | ready h => exact ⟨[], _, by rw [List.append_nil]; rfl, h, nofun⟩
  | again h _ ih =>
    obtain ⟨l, b, rfl, hb, hl⟩ := ih
    exact ⟨_ :: l, b, by simp [afterRead], hb, List.forall_mem_cons.2 ⟨⟨_, rfl, h⟩, hl⟩⟩

/-- What was written over the ports. -/
def writes (t : List PortOp) : List (UInt16 × UInt8) := t.filterMap fun
  | .write no byte => some (no, byte)
  | .read _ _ => none

@[simp] theorem writes_append (t t' : List PortOp) : writes (t ++ t') = writes t ++ writes t' := List.filterMap_append

theorem writes_busy {l : List PortOp} (h : ∀ op ∈ l, busyRead port busy op) : writes l = [] :=
  List.filterMap_eq_nil_iff.2 fun op hop => by
    obtain ⟨b, rfl, -⟩ := h op hop
    rfl

end Port

end Cing
