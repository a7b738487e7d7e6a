/-
interrupts.c: what becomes of an interrupt behind its stub. Hardware interrupts have a table of handlers, in which each number is
registered once; the end of the interrupt is told to the controllers before anything is checked. A number without a handler, and
every other interrupt, ends in a panic whose text has the number in it.
-/
import Cing.Drivers.Port
import Cing.Interrupts.Idt
import Cing.Kernel.Halt

namespace Cing

/-- The interrupt module: `_idt`, the limit and the address that `lidt` got, the table of handlers; and what handlers work on. -/
structure IntrState (κ : Type) where
  idt : Bytes.Mem
  idtr : Nat × Nat
  handlers : Nat → Option κ
  ports : List PortOp
  screen : Bytes.Mem

abbrev IntrM (κ : Type) := EStateM Stop (IntrState κ)

/-- Where the linker puts the stubs `isr0`, `isr1` and so on, `irq0` to `irq4`, and `_idt`. -/
structure Symbols where
  isr : Nat → UInt64
  irq : Nat → UInt64
  idt : Nat

/-- The text of a message. -/
def CStr.text (s : CStr) : String := String.ofList (s.chars.map fun c => Char.ofNat c.toNat)

/-- `str_buf_marshal_terminator`. -/
def Str.strBufMarshalTerminator (bufOff bufLen : Nat) : StrM Nat := do
  kernelAssert (u64Sub bufLen bufOff > 1) "(buf_len - buf_off) > 1"
  Str.bufPut bufOff 0
  return 1

namespace Intr

open Idt Str

variable {κ : Type}

def onIdt (x : IdtM Unit) : IntrM κ Unit := Exec.zoom IntrState.idt (fun m s => { s with idt := m }) x

def onPorts {α : Type} (x : PortM α) : IntrM κ α := Exec.zoom IntrState.ports (fun t s => { s with ports := t }) x

def onScreen (x : ScreenM Unit) : IntrM κ Unit := Exec.zoom IntrState.screen (fun b s => { s with screen := b }) x

/-! ## The code -/

/-- `INTR_ID_MAX`. -/
def intrIdMax : Nat := 40

/-- `IRQ_HANDLER_BASE`. -/
def irqHandlerBase : UInt8 := 32

/-- The calls that `_intr_init_idt` makes. -/
def initCalls (sym : Symbols) : List GateCall :=
  (List.range 32).map (fun i => ⟨i, .interrupt, sym.isr i⟩) ++
    (List.range 5).map (fun i => ⟨(irqHandlerBase + UInt8.ofNat i).toNat, .interrupt, sym.irq i⟩) ++
      (List.range' 37 219).map fun i => ⟨i, .interrupt, sym.isr i⟩

/-- `_intr_init_idt`. -/
def intrInitIdt (sym : Symbols) : IdtM Unit := encodeAll (initCalls sym)

/-- `_intr_load_idt_register`. -/
def intrLoadIdtRegister (sym : Symbols) : IntrM κ Unit :=
  modify fun s => { s with idtr := (idtGateLen * idtGateCount - 1, sym.idt) }

/-- `_intr_init_pic_8259`. -/
def intrInitPic8259 : PortM Unit := do
  Port.portWriteByte .picMasterCmd 0x11
  Port.portWriteByte .picSlaveCmd 0x11
  Port.portWriteByte .picMasterData irqHandlerBase
  Port.portWriteByte .picSlaveData (irqHandlerBase + 8)
  Port.portWriteByte .picMasterData 0x04
  Port.portWriteByte .picSlaveData 0x02
  Port.portWriteByte .picMasterData 0x01
  Port.portWriteByte .picSlaveData 0x01
  Port.portWriteByte .picMasterData 0x00
  Port.portWriteByte .picSlaveData 0x00

/-- `intr_init`. -/
def intrInit (sym : Symbols) : IntrM κ Unit := do
  onIdt (intrInitIdt sym)
  intrLoadIdtRegister sym
  onPorts intrInitPic8259
  modify fun s => { s with handlers := fun i => if i < idtGateCount then none else s.handlers i }

/-- The message that both handlers make: a text, a number and a terminator, in a buffer of 128 bytes. -/
def idMessage (part : String) (id : Nat) : StrM CStr := do
  let msgLen ← strBufMarshalStr 0 128 (ascii part) (ascii part).length
  let len ← strBufMarshalUint msgLen 128 id
  let _ ← strBufMarshalTerminator (u64 (msgLen + len)) 128
  let s ← get
  return Kernel.cstrOf ((List.range 128).map s.buf)

/-- `intr_isr_handler`. -/
def intrIsrHandler (id : Nat) : IntrM κ Unit := do
  kernelAssert (id < intrIdMax) "id < INTR_ID_MAX"
  let msg ← Exec.calls (idMessage "TODO: intr_isr_handler, id = " id) (Log.stackBuf [])
  throw (.panic msg.text)

/-- `intr_irq_handler`; `run` is what a handler does with the number and the address it gets. -/
def intrIrqHandler (run : κ → Nat → Nat → IntrM κ Unit) (id stackAddr : Nat) : IntrM κ Unit := do
  (if 40 ≤ id then onPorts (Port.portWriteByte .picSlaveCmd 0x20) else pure ())
  onPorts (Port.portWriteByte .picMasterCmd 0x20)
  kernelAssert (id < intrIdMax) "id < INTR_ID_MAX"
  let s ← get
  match s.handlers id with
  | none => do
    let msg ← Exec.calls (idMessage "Unhandled IRQ, id: " id) (Log.stackBuf [])
    throw (.panic msg.text)
  | some hand => run hand id stackAddr

/-- `intr_handler_register`; no handler is a NULL. -/
def intrHandlerRegister (id : Nat) (handler : Option κ) : IntrM κ Unit := do
  kernelAssert (id < intrIdMax) "id < INTR_ID_MAX"
  let s ← get
  kernelAssert ((s.handlers id).isNone = true) "handlers[id] == NULL"
  kernelAssert (handler.isSome = true) "handler != NULL"
  set { s with handlers := Function.update s.handlers id handler }

/-! ## Messages -/

/-- The text of a message about a number. -/
def idText (part : String) (id : Nat) : String :=
  String.ofList ((ascii part ++ decimal id).map fun c => Char.ofNat c.toNat)

variable {id : Nat} {part : String} {s s' : IntrState κ}

/-- A row of characters at the start of a buffer, with a NUL behind it. -/
theorem cstrOf_buf {m : Bytes.Mem} {l : List UInt8} {cap : Nat} (hin : ∀ i (h : i < l.length), m i = l[i]) (hend : m l.length = 0)
    (hnul : 0 ∉ l) (hlen : l.length < cap) : (Kernel.cstrOf ((List.range cap).map m)).chars = l := by
  obtain ⟨k, rfl⟩ := Nat.exists_eq_add_of_lt hlen
  have hrow : (List.range l.length).map m = l := by
    refine List.ext_getElem (by simp) fun i h1 h2 => ?_
    rw [List.getElem_map, List.getElem_range]
    exact hin i h2
  show ((List.range (l.length + k + 1)).map m).takeWhile (· ≠ 0) = l
  rw [Nat.add_assoc, List.range_add, List.map_append, hrow, List.map_map, List.range_succ_eq_map, List.map_cons,
    List.takeWhile_append_of_pos (by
      intro c hc
      have hne : c ≠ 0 := fun h0 => hnul (h0 ▸ hc)
      simp [hne])]
  have hzero : (m ∘ fun x => l.length + x) 0 = 0 := hend
  rw [hzero, List.takeWhile_cons_of_neg (by simp), List.append_nil]

theorem zero_notMem_decimal (v : Nat) : 0 ∉ decimal v := by
  intro hmem
  have h := (strCharIsDigit_iff 0).1 ((decimal_numeral v).digits 0 hmem)
  exact absurd h.1 (by decide)

/-- A part and a number for which the buffer has room. -/
theorem idMessage_run (hnul : 0 ∉ ascii part) (hid : id < 2 ^ 64) (hroom : (ascii part).length + (decimal id).length + 1 < 128)
    (st : StrState) : ∃ msg st', idMessage part id st = .ok msg st' ∧ msg.text = idText part id := by
  have hmarshal := @strBufMarshalStr_run 0 128 (ascii part) (by omega) (by norm_num) st
  have huint := @strBufMarshalUint_run (ascii part).length 128 id hid (by omega) (by norm_num)
    (wrote st 0 (ascii part))
  have hrow := wrote_wrote st 0 (ascii part) (decimal id)
  rw [Nat.zero_add] at hrow
  rw [hrow] at huint
  have hpos : u64 ((ascii part).length + (decimal id).length) = (ascii part ++ decimal id).length := by
    rw [List.length_append]
    exact u64_of_lt (by omega)
  have hlen : (ascii part ++ decimal id).length + 1 < 128 := by
    rw [List.length_append]
    exact hroom
  have hterm : ∀ s : StrState, strBufMarshalTerminator (ascii part ++ decimal id).length 128 s =
      .ok 1 (wrote s (ascii part ++ decimal id).length [0]) := by
    intro s
    unfold strBufMarshalTerminator
    rw [Exec.bind_ok (kernelAssert_pos (by rw [u64Sub_of_le (by omega) (by norm_num)]; omega) _ s), Exec.bind_ok (bufPut_run _ _ s),
      Exec.pure_run]
  have hall : idMessage part id st =
      .ok (Kernel.cstrOf ((List.range 128).map
        (wrote (wrote st 0 (ascii part ++ decimal id)) (ascii part ++ decimal id).length [0]).buf))
        (wrote (wrote st 0 (ascii part ++ decimal id)) (ascii part ++ decimal id).length [0]) := by
    unfold idMessage
    rw [Exec.bind_ok hmarshal, Exec.bind_ok huint, hpos, Exec.bind_ok (hterm _)]
    rfl
  refine ⟨_, _, hall, ?_⟩
  unfold CStr.text idText
  congr 2
  refine cstrOf_buf (fun i h => ?_) ?_ (fun hmem => ?_) (by omega)
  · show Bytes.splice _ _ [0] i = _
    rw [Bytes.splice_outside (.inl h)]
    have hin := Bytes.splice_inside (m := st.buf) (a := 0) h
    rw [Nat.zero_add] at hin
    exact hin
  · show Bytes.splice _ _ [0] _ = _
    rw [Bytes.splice_one, Bytes.put_same]
  · rcases List.mem_append.1 hmem with h | h
    · exact hnul h
    · exact zero_notMem_decimal id h

theorem decimal_id_length (h : id < intrIdMax) : (decimal id).length ≤ 2 := by
  unfold intrIdMax at h
  exact decimal_length_le (by omega) (by omega)

/-! ## Handlers -/

/-- The message of an interrupt that is not handled, as the panic gets it. -/
theorem idMessage_panic {part : String} (hnul : 0 ∉ ascii part) (hpart : (ascii part).length < 120) (h : id < intrIdMax)
    (s : IntrState κ) : (do
      let msg ← Exec.calls (idMessage part id) (Log.stackBuf [])
      throw (.panic msg.text) : IntrM κ Unit) s = .error (.panic (idText part id)) s := by
  have hlen := decimal_id_length h
  obtain ⟨msg, st', hrun, htext⟩ :=
    idMessage_run hnul (show id < 2 ^ 64 by unfold intrIdMax at h; omega) (by omega) (Log.stackBuf [])
  rw [Exec.bind_ok (Exec.calls_ok hrun s), Exec.throw_run, htext]

/-- Why an interrupt that is no hardware interrupt stops the kernel. -/
def isrStop (id : Nat) : Stop :=
  if id < intrIdMax then .panic (idText "TODO: intr_isr_handler, id = " id) else .assertFail "id < INTR_ID_MAX"

theorem intrIsrHandler_run (id : Nat) (s : IntrState κ) : intrIsrHandler id s = .error (isrStop id) s := by
  unfold intrIsrHandler isrStop
  by_cases h : id < intrIdMax
  · rw [Exec.bind_ok (kernelAssert_pos h _ s), if_pos h]
    exact idMessage_panic (by decide) (by decide) h s
  · rw [Exec.bind_error (kernelAssert_neg h _ s), if_neg h]

/-- What is told to the controllers at the end of an interrupt: the second one only if it is its own. -/
def eoi (id : Nat) : List PortOp :=
  (if 40 ≤ id then [PortOp.write (Port.no .picSlaveCmd) 0x20] else []) ++ [.write (Port.no .picMasterCmd) 0x20]

/-- The state behind the end of an interrupt. -/
def acknowledged (id : Nat) (s : IntrState κ) : IntrState κ := { s with ports := s.ports ++ eoi id }

theorem intrIrqHandler_run (run : κ → Nat → Nat → IntrM κ Unit) (id stackAddr : Nat) (s : IntrState κ) :
    intrIrqHandler run id stackAddr s =
      if id < intrIdMax then
        match s.handlers id with
        | none => .error (.panic (idText "Unhandled IRQ, id: " id)) (acknowledged id s)
        | some hand => run hand id stackAddr (acknowledged id s)
      else .error (.assertFail "id < INTR_ID_MAX") (acknowledged id s) := by
  have hslave : (if 40 ≤ id then onPorts (Port.portWriteByte .picSlaveCmd 0x20) else pure () : IntrM κ Unit) s =
      .ok () { s with ports := s.ports ++ if 40 ≤ id then [.write (Port.no .picSlaveCmd) 0x20] else [] } := by
    split
    · rfl
    · rw [List.append_nil]
      rfl
  have hmaster : onPorts (Port.portWriteByte .picMasterCmd 0x20)
      { s with ports := s.ports ++ if 40 ≤ id then [.write (Port.no .picSlaveCmd) 0x20] else [] } = .ok () (acknowledged id s) := by
    unfold acknowledged eoi
    rw [← List.append_assoc]
    rfl
  unfold intrIrqHandler
  rw [Exec.bind_ok hslave, Exec.bind_ok hmaster]
  by_cases h : id < intrIdMax
  · rw [Exec.bind_ok (kernelAssert_pos h _ _), if_pos h, Exec.bind_ok (Exec.get_run _)]
    show (match (acknowledged id s).handlers id with | none => _ | some hand => _ : IntrM κ Unit) _ = _
    have hsame : (acknowledged id s).handlers id = s.handlers id := rfl
    rw [hsame]
    cases s.handlers id with
    | none => exact idMessage_panic (by decide) (by decide) h _
    | some hand => rfl
  · rw [Exec.bind_error (kernelAssert_neg h _ _), if_neg h]

/-! ## The table -/

/-- A registration returns if and only if the number is one, it has no handler yet, and a handler is given. -/
theorem intrHandlerRegister_iff {handler : Option κ} : intrHandlerRegister id handler s = .ok () s' ↔
    id < intrIdMax ∧ s.handlers id = none ∧ handler.isSome = true ∧
      s' = { s with handlers := Function.update s.handlers id handler } := by
  unfold intrHandlerRegister
  constructor
  · intro h
    obtain ⟨hid, h⟩ := kernelAssert_bind h
    rw [Exec.bind_ok (Exec.get_run s)] at h
    obtain ⟨hnone, h⟩ := kernelAssert_bind h
    obtain ⟨hsome, h⟩ := kernelAssert_bind h
    cases h
    exact ⟨hid, Option.isNone_iff_eq_none.1 hnone, hsome, rfl⟩
  · rintro ⟨hid, hnone, hsome, rfl⟩
    rw [Exec.bind_ok (kernelAssert_pos hid _ s), Exec.bind_ok (Exec.get_run s),
      Exec.bind_ok (kernelAssert_pos (Option.isNone_iff_eq_none.2 hnone) _ s), Exec.bind_ok (kernelAssert_pos hsome _ s)]
    rfl

/-! ## The descriptor table -/

/-- The stub of a vector. -/
def stubOf (sym : Symbols) (v : Nat) : UInt64 := if 32 ≤ v ∧ v < 37 then sym.irq (v - 32) else sym.isr v

theorem initCalls_valid (sym : Symbols) : ∀ c ∈ initCalls sym, c.idx < idtGateCount := by
  intro c hc
  unfold initCalls at hc
  simp only [List.mem_append, List.mem_map, List.mem_range, List.mem_range'_1] at hc
  unfold idtGateCount
  rcases hc with (⟨i, hi, rfl⟩ | ⟨i, hi, rfl⟩) | ⟨i, hi, rfl⟩
  · dsimp only; omega
  · exact UInt8.toNat_lt _
  · dsimp only; omega

theorem initCalls_stub (sym : Symbols) : ∀ c ∈ initCalls sym, c.type = .interrupt ∧ c.handler = stubOf sym c.idx := by
  intro c hc
  unfold initCalls at hc
  simp only [List.mem_append, List.mem_map, List.mem_range, List.mem_range'_1] at hc
  rcases hc with (⟨i, hi, rfl⟩ | ⟨i, hi, rfl⟩) | ⟨i, hi, rfl⟩
  · exact ⟨rfl, (if_neg (by dsimp only; omega)).symm⟩
  · refine ⟨rfl, ?_⟩
    interval_cases i <;> rfl
  · exact ⟨rfl, (if_neg (by dsimp only; omega)).symm⟩

theorem initCalls_all (sym : Symbols) {v : Nat} (hv : v < 256) : ∃ c ∈ initCalls sym, c.idx = v := by
  unfold initCalls
  simp only [List.mem_append, List.mem_map, List.mem_range, List.mem_range'_1]
  by_cases h1 : v < 32
  · exact ⟨_, .inl (.inl ⟨v, h1, rfl⟩), rfl⟩
  · by_cases h2 : v < 37
    · refine ⟨_, .inl (.inr ⟨v - 32, by omega, rfl⟩), ?_⟩
      interval_cases v <;> rfl
    · exact ⟨_, .inr ⟨v, by omega, rfl⟩, rfl⟩

/-- The last call for a gate is one of the calls, and for that gate. -/
theorem lastCall_mem {calls : List GateCall} {c : GateCall} {idx : Nat} (h : lastCall idx calls = some c) :
    c ∈ calls ∧ c.idx = idx := by
  induction calls with
  | nil => cases h
  | cons d calls ih =>
    rw [lastCall] at h
    cases hlast : lastCall idx calls with
    | some e =>
      rw [hlast] at h
      cases h
      exact ⟨List.mem_cons_of_mem d (ih hlast).1, (ih hlast).2⟩
    | none =>
      rw [hlast] at h
      by_cases hd : d.idx = idx
      · rw [if_pos hd] at h
        cases h
        exact ⟨List.mem_cons_self, hd⟩
      · rw [if_neg hd] at h
        cases h

/-- `_intr_init_idt`: every gate holds its own stub, as a trap gate. -/
theorem intrInitIdt_run (sym : Symbols) (m : Bytes.Mem) :
    ∃ m', intrInitIdt sym m = .ok () m' ∧ ∀ v < 256, Says m' v .trap (stubOf sym v) := by
  obtain ⟨m', hrun, hgates⟩ := encodeAll_run (initCalls_valid sym) m
  refine ⟨m', hrun, fun v hv => ?_⟩
  cases hlast : lastCall v (initCalls sym) with
  | none =>
    obtain ⟨c, hc, hidx⟩ := initCalls_all sym hv
    exact absurd hidx (lastCall_eq_none_iff.1 hlast c hc)
  | some c =>
    obtain ⟨hmem, rfl⟩ := lastCall_mem hlast
    obtain ⟨htype, hstub⟩ := initCalls_stub sym c hmem
    have hentry := (hgates c.idx).1 c hlast
    rw [htype, hstub] at hentry
    exact hentry

/-- What `intr_init` sets up and nothing changes afterwards: the table that the processor uses. -/
structure Installed (sym : Symbols) (s : IntrState κ) : Prop where
  gates : ∀ v < 256, Says s.idt v .trap (stubOf sym v)
  idtr : s.idtr = (4095, sym.idt)

/-- `intr_init`. -/
theorem intrInit_run (sym : Symbols) (s : IntrState κ) : ∃ s', intrInit sym s = .ok () s' ∧ Installed sym s' ∧
    (∀ i < 256, s'.handlers i = none) ∧ s'.screen = s.screen ∧
    s'.ports = s.ports ++ [.write 0x20 0x11, .write 0xa0 0x11, .write 0x21 32, .write 0xa1 40, .write 0x21 4, .write 0xa1 2,
      .write 0x21 1, .write 0xa1 1, .write 0x21 0, .write 0xa1 0] := by
  obtain ⟨m, hidt, hgates⟩ := intrInitIdt_run sym s.idt
  have hports : ∀ t, intrInitPic8259 t = .ok () (t ++ [.write 0x20 0x11, .write 0xa0 0x11, .write 0x21 32, .write 0xa1 40,
      .write 0x21 4, .write 0xa1 2, .write 0x21 1, .write 0xa1 1, .write 0x21 0, .write 0xa1 0]) := by
    intro t
    unfold intrInitPic8259 Port.portWriteByte
    simp only [Exec.bind_run, Exec.modify_run, List.append_assoc, List.cons_append, List.nil_append]
    rfl
  unfold intrInit onIdt onPorts intrLoadIdtRegister
  rw [Exec.bind_ok (Exec.zoom_ok hidt), Exec.bind_ok (Exec.modify_run _ _), Exec.bind_ok (Exec.zoom_ok (hports _))]
  exact ⟨_, rfl, ⟨hgates, rfl⟩, fun i hi => if_pos hi, rfl, rfl⟩

end Intr

end Cing
