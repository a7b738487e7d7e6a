/-
interrupts.c: the gates of the interrupt descriptor table. `_idt_gate_encode` splits the address of a handler over three fields and
sets the option bits. The comment in it says that bit 8 is 0 for an interrupt gate and 1 for a trap gate; the code does it the other
way round.
-/
import Cing.Kernel.Panic
import Cing.Lib.Bytes

namespace Cing

/-- `idt_gate_type_t`. -/
inductive IdtGateType where
  | interrupt
  | trap
deriving DecidableEq

/-- What runs on `_idt`. -/
abbrev IdtM := EStateM Stop Bytes.Mem

namespace Idt

/-! ## The code -/

/-- `IDT_GATE_LEN`. -/
def idtGateLen : Nat := 16

/-- `IDT_GATE_COUNT`. -/
def idtGateCount : Nat := 256

/-- `GDT_CODE_SEGMENT_OFFSET`. -/
def gdtCodeSegmentOffset : Nat := 0x08

/-- `_idt_gate_encode`; it returns where the gate is in `_idt`. -/
def idtGateEncode (gateIdx : Nat) (type : IdtGateType) (handler : UInt64) : IdtM Nat := do
  kernelAssert (gateIdx < idtGateCount) "gate_idx < IDT_GATE_COUNT"
  let gate := gateIdx * idtGateLen
  modify fun m => Bytes.store m gate 2 handler.toUInt16.toNat
  modify fun m => Bytes.store m (gate + 2) 2 gdtCodeSegmentOffset
  modify fun m => Bytes.put m (gate + 4) 0
  match type with
  | .interrupt => modify fun m => Bytes.put m (gate + 5) 0x8f
  | .trap => modify fun m => Bytes.put m (gate + 5) 0x8e
  modify fun m => Bytes.store m (gate + 6) 2 (handler >>> 16).toUInt16.toNat
  modify fun m => Bytes.store m (gate + 8) 4 (handler >>> 32).toUInt32.toNat
  modify fun m => Bytes.store m (gate + 12) 4 0
  return gate

/-- A call of `_idt_gate_encode`. -/
structure GateCall where
  idx : Nat
  type : IdtGateType
  handler : UInt64

/-- Calls one after the other. -/
def encodeAll : List GateCall → IdtM Unit
  | [] => return ()
  | c :: calls => do
    let _ ← idtGateEncode c.idx c.type c.handler
    encodeAll calls

/-! ## The layout -/

/-- The two bytes of options. -/
def gateOptions (m : Bytes.Mem) (idx : Nat) : Nat := Bytes.load m (idx * idtGateLen + 4) 2

/-- The three fields of the offset, put together. -/
def gateOffset (m : Bytes.Mem) (idx : Nat) : Nat :=
  Bytes.load m (idx * idtGateLen) 2 + 2 ^ 16 * Bytes.load m (idx * idtGateLen + 6) 2 +
    2 ^ 32 * Bytes.load m (idx * idtGateLen + 8) 4

/-- A gate says a type and a handler, by the comment in `_idt_gate_encode`. -/
structure Says (m : Bytes.Mem) (idx : Nat) (type : IdtGateType) (handler : UInt64) : Prop where
  offset : gateOffset m idx = handler.toNat
  selector : Bytes.load m (idx * idtGateLen + 2) 2 = gdtCodeSegmentOffset
  trap : (gateOptions m idx).testBit 8 = true ↔ type = .trap
  ones : ∀ b, 9 ≤ b → b ≤ 11 → (gateOptions m idx).testBit b = true
  zero : (gateOptions m idx).testBit 12 = false
  present : (gateOptions m idx).testBit 15 = true

/-- The last of some calls for a gate. -/
def lastCall (idx : Nat) : List GateCall → Option GateCall
  | [] => none
  | c :: calls => (lastCall idx calls).or (if c.idx = idx then some c else none)

/-- The gate is as it was. -/
def Unchanged (m m' : Bytes.Mem) (idx : Nat) : Prop := ∀ k < idtGateLen, m' (idx * idtGateLen + k) = m (idx * idtGateLen + k)

/-- After some calls, a gate says what the last call for it said, or is as it was. -/
def GateRight (calls : List GateCall) (m m' : Bytes.Mem) (idx : Nat) : Prop :=
  match lastCall idx calls with
  | some c => Says m' idx c.type c.handler
  | none => Unchanged m m' idx

/-! ## What a call writes -/

/-- The type that the bits of a gate say. -/
def said : IdtGateType → IdtGateType
  | .interrupt => .trap
  | .trap => .interrupt

/-- The second byte of the options. -/
def optionByte : IdtGateType → UInt8
  | .interrupt => 0x8f
  | .trap => 0x8e

/-- The memory after a call. -/
def encoded (m : Bytes.Mem) (gate : Nat) (type : IdtGateType) (handler : UInt64) : Bytes.Mem :=
  let m := Bytes.store m gate 2 handler.toUInt16.toNat
  let m := Bytes.store m (gate + 2) 2 gdtCodeSegmentOffset
  let m := Bytes.put (Bytes.put m (gate + 4) 0) (gate + 5) (optionByte type)
  let m := Bytes.store m (gate + 6) 2 (handler >>> 16).toUInt16.toNat
  let m := Bytes.store m (gate + 8) 4 (handler >>> 32).toUInt32.toNat
  Bytes.store m (gate + 12) 4 0

variable {m m' : Bytes.Mem} {idx : Nat} {type : IdtGateType} {handler : UInt64}

theorem idtGateEncode_run (hidx : idx < idtGateCount) (type : IdtGateType) (handler : UInt64) (m : Bytes.Mem) :
    idtGateEncode idx type handler m = .ok (idx * idtGateLen) (encoded m (idx * idtGateLen) type handler) := by
  unfold idtGateEncode
  rw [Exec.bind_ok (kernelAssert_pos hidx _ m)]
  cases type <;> rfl

/-- A call writes inside its gate. -/
theorem encoded_outside {gate x : Nat} (hx : x < gate ∨ gate + idtGateLen ≤ x) : encoded m gate type handler x = m x := by
  unfold idtGateLen at hx
  unfold encoded
  rw [Bytes.store_outside _ _ _ _ _ (by omega), Bytes.store_outside _ _ _ _ _ (by omega), Bytes.store_outside _ _ _ _ _ (by omega),
    Bytes.put_other (by omega), Bytes.put_other (by omega), Bytes.store_outside _ _ _ _ _ (by omega),
    Bytes.store_outside _ _ _ _ _ (by omega)]

/-- The fields of the offset hold the handler, which is cut at 16 and 32 bits. -/
theorem handler_fields (handler : UInt64) : handler.toUInt16.toNat + 2 ^ 16 * (handler >>> 16).toUInt16.toNat +
    2 ^ 32 * (handler >>> 32).toUInt32.toNat = handler.toNat := by
  have hlt := handler.toNat_lt
  have h16 : (handler >>> 16).toNat = handler.toNat / 2 ^ 16 := by simp [UInt64.toNat_shiftRight, Nat.shiftRight_eq_div_pow]
  have h32 : (handler >>> 32).toNat = handler.toNat / 2 ^ 32 := by simp [UInt64.toNat_shiftRight, Nat.shiftRight_eq_div_pow]
  rw [UInt64.toNat_toUInt16, UInt64.toNat_toUInt16, UInt64.toNat_toUInt32, h16, h32]
  omega

theorem gateOptions_encoded (m : Bytes.Mem) (idx : Nat) (type : IdtGateType) (handler : UInt64) :
    gateOptions (encoded m (idx * idtGateLen) type handler) idx = 256 * (optionByte type).toNat := by
  unfold gateOptions encoded
  dsimp only
  rw [Bytes.load_store_other (by omega), Bytes.load_store_other (by omega), Bytes.load_store_other (by omega)]
  simp [Bytes.load, Bytes.put]

/-- The gate says the handler of the call, and the other type. -/
theorem encoded_gate (m : Bytes.Mem) (idx : Nat) (type : IdtGateType) (handler : UInt64) :
    Says (encoded m (idx * idtGateLen) type handler) idx (said type) handler := by
  have hopt := gateOptions_encoded m idx type handler
  refine ⟨?_, ?_, ?_, fun b hlow hhigh => ?_, ?_, ?_⟩
  · have h0 : Bytes.load (encoded m (idx * idtGateLen) type handler) (idx * idtGateLen) 2 = handler.toUInt16.toNat := by
      unfold encoded
      dsimp only
      rw [Bytes.load_store_other (by omega), Bytes.load_store_other (by omega), Bytes.load_store_other (by omega),
        Bytes.load_put_other (by omega), Bytes.load_put_other (by omega), Bytes.load_store_other (by omega), Bytes.load_store_same]
      exact Nat.mod_eq_of_lt handler.toUInt16.toNat_lt
    have h6 : Bytes.load (encoded m (idx * idtGateLen) type handler) (idx * idtGateLen + 6) 2 =
        (handler >>> 16).toUInt16.toNat := by
      unfold encoded
      dsimp only
      rw [Bytes.load_store_other (by omega), Bytes.load_store_other (by omega), Bytes.load_store_same]
      exact Nat.mod_eq_of_lt (handler >>> 16).toUInt16.toNat_lt
    have h8 : Bytes.load (encoded m (idx * idtGateLen) type handler) (idx * idtGateLen + 8) 4 =
        (handler >>> 32).toUInt32.toNat := by
      unfold encoded
      dsimp only
      rw [Bytes.load_store_other (by omega), Bytes.load_store_same]
      exact Nat.mod_eq_of_lt (handler >>> 32).toUInt32.toNat_lt
    unfold gateOffset
    rw [h0, h6, h8]
    exact handler_fields handler
  · unfold encoded
    dsimp only
    rw [Bytes.load_store_other (by omega), Bytes.load_store_other (by omega), Bytes.load_store_other (by omega),
      Bytes.load_put_other (by omega), Bytes.load_put_other (by omega), Bytes.load_store_same]
    rfl
  · rw [hopt]
    cases type <;> decide
  · rw [hopt]
    cases type <;> interval_cases b <;> decide
  · rw [hopt]
    cases type <;> decide
  · rw [hopt]
    cases type <;> decide

theorem Says.type_unique {type' : IdtGateType} {handler' : UInt64} (h : Says m idx type handler) (h' : Says m idx type' handler') :
    type = type' := by
  have hiff := h.trap.symm.trans h'.trap
  cases type <;> cases type' <;> simp_all

theorem said_ne (type : IdtGateType) : said type ≠ type := by
  cases type <;> decide

/-! ## Calls -/

/-- What a gate says and whether it changed depends on its bytes only. -/
theorem Says.congr (h : Says m idx type handler) (hsame : Unchanged m m' idx) : Says m' idx type handler := by
  have hload : ∀ a n, idx * idtGateLen ≤ a → a + n ≤ idx * idtGateLen + idtGateLen → Bytes.load m' a n = Bytes.load m a n := by
    intro a n hlow hhigh
    refine Bytes.load_congr fun x h1 h2 => ?_
    obtain ⟨k, rfl⟩ := Nat.exists_eq_add_of_le (hlow.trans h1)
    exact hsame k (by omega)
  have hoff : gateOffset m' idx = gateOffset m idx := by
    unfold gateOffset
    rw [hload _ 2 (by omega) (by unfold idtGateLen; omega), hload _ 2 (by omega) (by unfold idtGateLen; omega),
      hload _ 4 (by omega) (by unfold idtGateLen; omega)]
  have hopt : gateOptions m' idx = gateOptions m idx := hload _ 2 (by omega) (by unfold idtGateLen; omega)
  have hsel := hload (idx * idtGateLen + 2) 2 (by omega) (by unfold idtGateLen; omega)
  exact ⟨hoff.trans h.offset, hsel.trans h.selector, hopt ▸ h.trap, hopt ▸ h.ones, hopt ▸ h.zero, hopt ▸ h.present⟩

theorem encoded_unchanged {idx' : Nat} (hne : idx ≠ idx') : Unchanged m (encoded m (idx * idtGateLen) type handler) idx' := by
  intro k hk
  refine encoded_outside ?_
  unfold idtGateLen at hk ⊢
  omega

/-- Any calls: a gate that was named says the handler of the last call for it and the other type, the others are as they were. -/
theorem encodeAll_run {calls : List GateCall} (hcalls : ∀ c ∈ calls, c.idx < idtGateCount) (m : Bytes.Mem) :
    ∃ m', encodeAll calls m = .ok () m' ∧ ∀ idx, (∀ c, lastCall idx calls = some c → Says m' idx (said c.type) c.handler) ∧
      (lastCall idx calls = none → Unchanged m m' idx) := by
  induction calls generalizing m with
  | nil => exact ⟨m, rfl, fun idx => ⟨nofun, fun _ _ _ => rfl⟩⟩
  | cons c calls ih =>
    obtain ⟨hc, hcalls⟩ := List.forall_mem_cons.1 hcalls
    obtain ⟨m', hrun, hgates⟩ := ih hcalls (encoded m (c.idx * idtGateLen) c.type c.handler)
    refine ⟨m', ?_, fun idx => ?_⟩
    · rw [encodeAll, Exec.bind_ok (idtGateEncode_run hc c.type c.handler m), hrun]
    obtain ⟨hsome, hnone⟩ := hgates idx
    rw [lastCall]
    cases hlast : lastCall idx calls with
    | some c' => exact ⟨fun d hd => by cases hd; exact hsome c' hlast, nofun⟩
    | none =>
      have hkept := hnone hlast
      by_cases he : c.idx = idx
      · subst he
        rw [if_pos rfl]
        exact ⟨fun d hd => by cases hd; exact (encoded_gate m c.idx c.type c.handler).congr hkept, nofun⟩
      · rw [if_neg he]
        exact ⟨nofun, fun _ k hk => (hkept k hk).trans (encoded_unchanged he k hk)⟩

theorem lastCall_eq_none_iff {calls : List GateCall} : lastCall idx calls = none ↔ ∀ c ∈ calls, c.idx ≠ idx := by
  induction calls with
  | nil => exact iff_of_true rfl nofun
  | cons c calls ih =>
    rw [lastCall, Option.or_eq_none_iff, ih, List.forall_mem_cons, and_comm]
    simp

/-- After any calls a gate is right if and only if no call named it: the type that a call writes is always the other one. -/
theorem idt_gate_right_iff {calls : List GateCall} (hcalls : ∀ c ∈ calls, c.idx < idtGateCount) (m : Bytes.Mem) (idx : Nat) :
    (∃ m', encodeAll calls m = .ok () m' ∧ GateRight calls m m' idx) ↔ ∀ c ∈ calls, c.idx ≠ idx := by
  obtain ⟨m', hrun, hgates⟩ := encodeAll_run hcalls m
  obtain ⟨hsome, hnone⟩ := hgates idx
  rw [← lastCall_eq_none_iff]
  unfold GateRight
  constructor
  · rintro ⟨m'', hrun', hright⟩
    rw [hrun] at hrun'
    cases hrun'
    cases hlast : lastCall idx calls with
    | none => rfl
    | some c =>
      rw [hlast] at hright
      exact absurd ((hsome c hlast).type_unique hright) (said_ne c.type)
  · intro hlast
    rw [hlast]
    exact ⟨m', hrun, hnone hlast⟩

/-- A call for the next gate. -/
theorem idt_gate_right_iff_other : ∃ m', encodeAll [⟨1, .interrupt, 0xFFFF800000001234⟩] (fun _ => 7) = .ok () m' ∧
    GateRight [⟨1, .interrupt, 0xFFFF800000001234⟩] (fun _ => 7) m' 0 :=
  (idt_gate_right_iff (by decide) _ 0).2 (by decide)

/-- An interrupt gate is a trap gate. -/
theorem idt_gate_wrong : ¬ ∃ m', encodeAll [⟨0, .interrupt, 0x1000⟩] (fun _ => 0) = .ok () m' ∧
    GateRight [⟨0, .interrupt, 0x1000⟩] (fun _ => 0) m' 0 := by
  rintro ⟨m', hrun, hright⟩
  obtain ⟨m'', hrun', hgates⟩ := @encodeAll_run [⟨0, .interrupt, 0x1000⟩] (by decide) fun _ => 0
  rw [hrun] at hrun'
  cases hrun'
  exact said_ne _ (((hgates 0).1 _ rfl).type_unique hright)

end Idt

end Cing
