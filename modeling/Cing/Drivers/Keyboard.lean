/-
drivers_time.c and drivers_keyboard.c: the two handlers that are registered. The one of the timer does nothing; the one of the
keyboard waits for data, reads a scan code, and shows a letter in the corner of the screen for three of them. With both registered,
the kernel takes interrupts of the timer and the keyboard in any order and number, whatever it does in between, and stops at the
first other one.
-/
import Cing.Interrupts.Stubs

namespace Cing

/-- The functions that are registered as handlers. -/
inductive IrqHandler where
  /-- `_irq_handler` of drivers_time.c. -/
  | time
  /-- `keyboard_irq_handler`. -/
  | keyboard
deriving DecidableEq, Repr

namespace Keyboard

open Port Intr Stub

/-! ## The code -/

/-- `_status_data_is_empty`. -/
def statusDataIsEmpty (statusByte : UInt8) : Bool := !(statusByte.toNat.testBit 0)

/-- `_wait_data_available`, at most `n` rounds. -/
def waitDataAvailable (dev : Device) (n : Nat) : PortM Unit := pollLoop dev .keyboardCmd statusDataIsEmpty n

/-- `_data_read`. -/
def dataRead (dev : Device) : PortM UInt8 := portReadByte dev .keyboardData

/-- `keyboard_irq_handler`. -/
def keyboardIrqHandler (dev : Device) (n : Nat) : IntrM IrqHandler Unit := do
  onPorts (waitDataAvailable dev n)
  let data ← onPorts (dataRead dev)
  if data = 0x11 then onScreen (Screen.screenWriteAt 87 0 0)
  else if data = 0x15 then onScreen (Screen.screenWriteAt 89 0 0)
  else if data = 0x19 then onScreen (Screen.screenWriteAt 80 0 0)
  else pure ()

/-- What a handler does with the number and the address that it gets: neither is used. -/
def runHandler (dev : Device) (n : Nat) : IrqHandler → Nat → Nat → IntrM IrqHandler Unit
  | .time, _, _ => pure ()
  | .keyboard, _, _ => keyboardIrqHandler dev n

/-- `time_init`. -/
def timeInit : IntrM IrqHandler Unit := intrHandlerRegister 32 (some .time)

/-- `keyboard_init`. -/
def keyboardInit : IntrM IrqHandler Unit := intrHandlerRegister 33 (some .keyboard)

/-- Initialisation of the interrupts and the two drivers. -/
def initAll (sym : Symbols) : IntrM IrqHandler Unit := do
  intrInit sym
  timeInit
  keyboardInit

/-! ## One interrupt -/

/-- The letter for a scan code. -/
def keyChar (data : UInt8) : Option UInt8 :=
  if data = 0x11 then some 87 else if data = 0x15 then some 89 else if data = 0x19 then some 80 else none

/-- The last letter among the scan codes that were read. -/
def lastKey : List PortOp → Option UInt8
  | [] => none
  | .read no byte :: l => (lastKey l).or (if no = Port.no .keyboardData then keyChar byte else none)
  | .write _ _ :: l => lastKey l

/-- A screen with a letter in its corner, if there is one. -/
def shown (screen : Bytes.Mem) : Option UInt8 → Bytes.Mem
  | none => screen
  | some c => Bytes.put screen 0 c

theorem lastKey_append (l l' : List PortOp) : lastKey (l ++ l') = (lastKey l').or (lastKey l) := by
  induction l with
  | nil => rw [List.nil_append, lastKey, Option.or_none]
  | cons op l ih =>
    cases op with
    | read no byte => rw [List.cons_append, lastKey, lastKey, ih, Option.or_assoc]
    | write no byte => rw [List.cons_append, lastKey, lastKey, ih]

theorem lastKey_busy {busy : UInt8 → Bool} {l : List PortOp} (h : ∀ op ∈ l, busyRead .keyboardCmd busy op) : lastKey l = none := by
  induction l with
  | nil => rfl
  | cons op l ih =>
    obtain ⟨⟨b, rfl, -⟩, hl⟩ := List.forall_mem_cons.1 h
    rw [lastKey, ih hl, Option.none_or, if_neg (by decide)]

theorem shown_shown (screen : Bytes.Mem) (c c' : Option UInt8) : shown (shown screen c) c' = shown screen (c'.or c) := by
  cases c' with
  | none => rfl
  | some d =>
    cases c with
    | none => rfl
    | some e =>
      funext x
      show Bytes.put (Bytes.put screen 0 e) 0 d x = Bytes.put screen 0 d x
      by_cases hx : x = 0
      · rw [hx, Bytes.put_same, Bytes.put_same]
      · rw [Bytes.put_other hx, Bytes.put_other hx, Bytes.put_other hx]

variable {dev : Device} {sym : Symbols} {s s' : IntrState IrqHandler} {n v a : Nat}

/-- Some interrupts were served: for each of them the controller was told its end, nothing else was written to the ports, and the
corner of the screen shows the last letter of what was read. -/
structure Served (s s' : IntrState IrqHandler) (count : Nat) : Prop where
  idt : s'.idt = s.idt
  idtr : s'.idtr = s.idtr
  handlers : s'.handlers = s.handlers
  ports : ∃ new, s'.ports = s.ports ++ new ∧ Port.writes new = List.replicate count (0x20, 0x20) ∧
    s'.screen = shown s.screen (lastKey new)

theorem Served.refl (s : IntrState IrqHandler) : Served s s 0 := ⟨rfl, rfl, rfl, [], (List.append_nil _).symm, rfl, rfl⟩

theorem Served.trans {s'' : IntrState IrqHandler} {count count' : Nat} (h : Served s s' count) (h' : Served s' s'' count') :
    Served s s'' (count + count') := by
  obtain ⟨new, hp, hw, hs⟩ := h.ports
  obtain ⟨new', hp', hw', hs'⟩ := h'.ports
  refine ⟨h'.idt.trans h.idt, h'.idtr.trans h.idtr, h'.handlers.trans h.handlers, new ++ new', ?_, ?_, ?_⟩
  · rw [hp', hp, List.append_assoc]
  · rw [Port.writes_append, hw, hw', List.replicate_append_replicate]
  · rw [hs', hs, shown_shown, lastKey_append]

/-- What an interrupt of the timer or the keyboard makes of the interrupt module: the controller is told its end; for the keyboard,
the status is read until there is data, then the data, and its letter is shown. -/
inductive Serves (dev : Device) (s : IntrState IrqHandler) : Nat → IntrState IrqHandler → Prop
  | time : Serves dev s 32 { s with ports := s.ports ++ [.write 0x20 0x20] }
  | keyboard {t : List PortOp} : Polls dev .keyboardCmd statusDataIsEmpty (s.ports ++ [.write 0x20 0x20]) t →
      Serves dev s 33 { s with
        ports := afterRead dev .keyboardData t, screen := shown s.screen (keyChar (dev t (no .keyboardData))) }

/-- The end of an interrupt of the first controller. -/
theorem acknowledged_first (hv : v < 40) (s : IntrState IrqHandler) :
    acknowledged v s = { s with ports := s.ports ++ [.write 0x20 0x20] } := by
  unfold acknowledged eoi
  rw [if_neg (by omega)]
  rfl

/-- What is read while there is no data has no letter and writes nothing. -/
theorem Serves.served (h : Serves dev s v s') : Served s s' 1 := by
  cases h with
  | time => exact ⟨rfl, rfl, rfl, _, rfl, rfl, rfl⟩
  | @keyboard t hpolls =>
    obtain ⟨l, b, ht, -, hl⟩ := hpolls.reads
    refine ⟨rfl, rfl, rfl,
      .write 0x20 0x20 :: (l ++ [.read (no .keyboardCmd) b]) ++ [.read (no .keyboardData) (dev t (no .keyboardData))],
      ?_, ?_, ?_⟩
    · show afterRead dev .keyboardData t = _
      rw [afterRead, ht]
      simp only [List.append_assoc, List.cons_append, List.nil_append]
    · rw [Port.writes_append, ← List.singleton_append, Port.writes_append, Port.writes_append, writes_busy hl]
      rfl
    · have hkey : lastKey (.write 0x20 0x20 :: (l ++ [.read (no .keyboardCmd) b])) = none := by
        rw [lastKey, lastKey_append, lastKey_busy hl, Option.or_none]
        rfl
      rw [lastKey_append, hkey, Option.or_none]
      rfl

/-- The handler of the keyboard, whether the data comes in time or not. -/
theorem keyboardIrqHandler_cases (dev : Device) (n : Nat) (s : IntrState IrqHandler) :
    (∃ t, Polls dev .keyboardCmd statusDataIsEmpty s.ports t ∧ keyboardIrqHandler dev n s = .ok () { s with
        ports := afterRead dev .keyboardData t, screen := shown s.screen (keyChar (dev t (no .keyboardData))) }) ∨
      ∃ t, waitDataAvailable dev n s.ports = .error .hang t ∧ keyboardIrqHandler dev n s = .error .hang { s with ports := t } := by
  unfold keyboardIrqHandler
  rcases pollLoop_cases dev .keyboardCmd statusDataIsEmpty n s.ports with ⟨t, hrun, hpolls⟩ | ⟨t, hrun, -⟩
  · have hwait : onPorts (waitDataAvailable dev n) s = .ok () { s with ports := t } := Exec.zoom_ok hrun
    have hread : onPorts (dataRead dev) { s with ports := t } =
        .ok (dev t (no .keyboardData)) { s with ports := afterRead dev .keyboardData t } :=
      Exec.zoom_ok (portReadByte_run dev .keyboardData t)
    have hput : ∀ c : UInt8, onScreen (Screen.screenWriteAt c 0 0) { s with ports := afterRead dev .keyboardData t } =
        .ok () { s with ports := afterRead dev .keyboardData t, screen := Bytes.put s.screen 0 c } :=
      fun c => Exec.zoom_ok (Screen.screenWriteAt_run c (by decide) (by decide) _)
    refine .inl ⟨t, hpolls, ?_⟩
    rw [Exec.bind_ok hwait, Exec.bind_ok hread]
    generalize dev t (no .keyboardData) = data
    unfold keyChar
    split
    next => exact hput 87
    next =>
      split
      next => exact hput 89
      next =>
        split
        next => exact hput 80
        next => rfl
  · have hwait : onPorts (waitDataAvailable dev n) s = .error .hang { s with ports := t } := by
      unfold onPorts Exec.zoom waitDataAvailable
      rw [hrun]
    exact .inr ⟨t, hrun, Exec.bind_error hwait⟩

/-- The handlers that `time_init` and `keyboard_init` leave behind. -/
structure Registered (s : IntrState IrqHandler) : Prop where
  time : s.handlers 32 = some .time
  keyboard : s.handlers 33 = some .keyboard
  rest : ∀ i < 40, i ≠ 32 → i ≠ 33 → s.handlers i = none

theorem Registered.same (h : Registered s) (heq : s'.handlers = s.handlers) : Registered s' := by
  obtain ⟨htime, hkeyboard, hrest⟩ := h
  rw [← heq] at htime hkeyboard hrest
  exact ⟨htime, hkeyboard, hrest⟩

theorem initAll_run (sym : Symbols) (s : IntrState IrqHandler) :
    ∃ s', initAll sym s = .ok () s' ∧ Installed sym s' ∧ Registered s' ∧ s'.screen = s.screen := by
  obtain ⟨s₁, hinit, hinst, hnone, hscreen, -⟩ := intrInit_run sym s
  have htime : intrHandlerRegister 32 (some .time) s₁ =
      .ok () { s₁ with handlers := Function.update s₁.handlers 32 (some .time) } :=
    intrHandlerRegister_iff.2 ⟨by decide, hnone 32 (by decide), rfl, rfl⟩
  have hkeyboard : intrHandlerRegister 33 (some .keyboard) { s₁ with handlers := Function.update s₁.handlers 32 (some .time) } =
      .ok () { s₁ with handlers := Function.update (Function.update s₁.handlers 32 (some .time)) 33 (some .keyboard) } := by
    refine intrHandlerRegister_iff.2 ⟨by decide, ?_, rfl, rfl⟩
    dsimp only
    rw [Function.update_of_ne (by decide)]
    exact hnone 33 (by decide)
  have hall : initAll sym s =
      .ok () { s₁ with handlers := Function.update (Function.update s₁.handlers 32 (some .time)) 33 (some .keyboard) } := by
    unfold initAll
    rw [Exec.bind_ok hinit]
    exact (Exec.bind_ok htime).trans hkeyboard
  refine ⟨_, hall, ⟨hinst.gates, hinst.idtr⟩, ⟨?_, ?_, fun i hi h32 h33 => ?_⟩, hscreen⟩
  · dsimp only
    rw [Function.update_of_ne (by decide), Function.update_self]
  · dsimp only
    rw [Function.update_self]
  · dsimp only
    rw [Function.update_of_ne h33, Function.update_of_ne h32]
    exact hnone i (by omega)

/-- Why a vector stops the kernel, if it does. -/
def vectorStop (v : Nat) : Option Stop :=
  if v = 32 ∨ v = 33 then none
  else if 32 ≤ v ∧ v < 37 then some (.panic (idText "Unhandled IRQ, id: " v))
  else some (isrStop v)

/-- Whether a vector is told to the controller before the kernel stops. -/
def acks (v : Nat) : Nat := if 32 ≤ v ∧ v < 37 then 1 else 0

/-- The interrupt module when such a vector has stopped the kernel. -/
def toldOf (v : Nat) (s : IntrState IrqHandler) : IntrState IrqHandler :=
  if 32 ≤ v ∧ v < 37 then { s with ports := s.ports ++ [.write 0x20 0x20] } else s

theorem toldOf_served (v : Nat) (s : IntrState IrqHandler) : Served s (toldOf v s) (acks v) := by
  unfold toldOf acks
  split
  · exact ⟨rfl, rfl, rfl, _, rfl, rfl, rfl⟩
  · exact .refl s

/-- A vector that stops the kernel. -/
theorem dispatch_stops (hreg : Registered s) {e : Stop} (he : vectorStop v = some e) (dev : Device) (n a : Nat) :
    dispatch (runHandler dev n) v a s = .error e (toldOf v s) := by
  unfold vectorStop at he
  unfold dispatch toldOf
  by_cases h0 : v = 32 ∨ v = 33
  · rw [if_pos h0] at he
    cases he
  · rw [if_neg h0] at he
    by_cases hirq : 32 ≤ v ∧ v < 37
    · rw [if_pos hirq] at he ⊢
      cases he
      rw [if_pos hirq, intrIrqHandler_run, if_pos (show v < intrIdMax by unfold intrIdMax; omega),
        hreg.rest v (by omega) (fun h => h0 (.inl h)) (fun h => h0 (.inr h)), acknowledged_first (by omega)]
    · rw [if_neg hirq] at he ⊢
      cases he
      rw [if_neg hirq, intrIsrHandler_run]

/-- A vector of the timer or the keyboard. -/
theorem dispatch_serves (hreg : Registered s) (hv : vectorStop v = none) (dev : Device) (n a : Nat) :
    (∃ s', dispatch (runHandler dev n) v a s = .ok () s' ∧ Serves dev s v s') ∨
      v = 33 ∧ ∃ t, waitDataAvailable dev n (s.ports ++ [.write 0x20 0x20]) = .error .hang t ∧
        dispatch (runHandler dev n) v a s = .error .hang { s with ports := t } := by
  have h0 : v = 32 ∨ v = 33 := by
    by_contra h0
    unfold vectorStop at hv
    rw [if_neg h0] at hv
    split at hv <;> cases hv
  unfold dispatch
  rw [if_pos (by omega), intrIrqHandler_run, if_pos (show v < intrIdMax by unfold intrIdMax; omega), acknowledged_first (by omega)]
  rcases h0 with rfl | rfl
  · rw [hreg.time]
    exact .inl ⟨_, rfl, .time⟩
  · rw [hreg.keyboard]
    rcases keyboardIrqHandler_cases dev n { s with ports := s.ports ++ [.write 0x20 0x20] } with
      ⟨t, hpolls, hrun⟩ | ⟨t, hwait, hrun⟩
    · exact .inl ⟨_, hrun, .keyboard hpolls⟩
    · exact .inr ⟨rfl, t, hwait, hrun⟩

/-! ## Runs -/

/-- A run of interrupts, `count` of which were told to the controller: each one of the timer or the keyboard is served, and the
interrupted code goes on as it was; the first other one stops the kernel, and so does one of the keyboard that has no data as long
as it is waited for. Before each of them the interrupted code does what it does. -/
inductive Run (dev : Device) (n : Nat) : List (Event IrqHandler) → Processor IrqHandler → Option Stop →
    Processor IrqHandler → Nat → Prop
  | done (p : Processor IrqHandler) : Run dev n [] p none p 0
  | served {g : Processor IrqHandler → Processor IrqHandler} {v : Nat} {l : List (Event IrqHandler)} {p p' q : Processor IrqHandler}
      {k : IntrState IrqHandler} {e : Option Stop} {count : Nat} :
      Serves dev (g p).kernel v k → Resumed v (g p) p' k → Run dev n l p' e q count → Run dev n ((g, v) :: l) p e q (1 + count)
  | other {g : Processor IrqHandler → Processor IrqHandler} {v : Nat} {l : List (Event IrqHandler)}
      {p q : Processor IrqHandler} {e : Stop} :
      vectorStop v = some e → q.kernel = toldOf v (g p).kernel → Run dev n ((g, v) :: l) p (some e) q (acks v)
  | noData {g : Processor IrqHandler → Processor IrqHandler} {l : List (Event IrqHandler)} {p q : Processor IrqHandler}
      {t : List PortOp} : waitDataAvailable dev n ((g p).kernel.ports ++ [.write 0x20 0x20]) = .error .hang t →
      q.kernel = { (g p).kernel with ports := t } → Run dev n ((g, 33) :: l) p (some .hang) q 1

/-- Interrupted code that leaves the ports and the screen alone. -/
structure Quiet (g : Processor IrqHandler → Processor IrqHandler) : Prop where
  ports : ∀ p, (g p).kernel.ports = p.kernel.ports
  screen : ∀ p, (g p).kernel.screen = p.kernel.screen

theorem Quiet.kernel_eq {g : Processor IrqHandler → Processor IrqHandler} (hq : Quiet g) (hg : Interruptible g)
    (p : Processor IrqHandler) : (g p).kernel = p.kernel := by
  have h1 := hg.idt p
  have h2 := hg.idtr p
  have h3 := hg.handlers p
  have h4 := hq.ports p
  have h5 := hq.screen p
  cases hk : (g p).kernel
  cases hk' : p.kernel
  rw [hk, hk'] at h1 h2 h3 h4 h5
  dsimp only at h1 h2 h3 h4 h5
  rw [h1, h2, h3, h4, h5]

/-- What code that leaves ports and screen alone finds there at the end was done by the handlers. -/
theorem Run.served_all {l : List (Event IrqHandler)} {p q : Processor IrqHandler} {e : Option Stop} {count : Nat}
    (h : Run dev n l p e q count) (hl : ∀ ev ∈ l, Interruptible ev.1 ∧ Quiet ev.1) : Served p.kernel q.kernel count := by
  induction h with
  | done p => exact .refl p.kernel
  | served hserves hres _ ih =>
    obtain ⟨⟨hg, hq⟩, hl⟩ := List.forall_mem_cons.1 hl
    have hone := hserves.served
    rw [hq.kernel_eq hg, ← hres.kernel] at hone
    exact hone.trans (ih hl)
  | @other g v l p q e _ hk =>
    obtain ⟨hg, hq⟩ := (List.forall_mem_cons.1 hl).1
    rw [hk, hq.kernel_eq hg]
    exact toldOf_served v p.kernel
  | @noData g l p q t hwait hk =>
    obtain ⟨hg, hq⟩ := (List.forall_mem_cons.1 hl).1
    rw [hq.kernel_eq hg] at hwait hk
    rw [hk]
    rcases pollLoop_cases dev .keyboardCmd statusDataIsEmpty n (p.kernel.ports ++ [.write 0x20 0x20]) with
      ⟨t', hrun, -⟩ | ⟨t', hrun, hw⟩
    · cases hwait.symm.trans hrun
    · obtain rfl : t = t' := by cases hwait.symm.trans hrun; rfl
      obtain ⟨r, rfl, hr⟩ := hw.reads
      refine ⟨rfl, rfl, rfl, .write 0x20 0x20 :: r, List.append_assoc .., ?_, ?_⟩
      · rw [← List.singleton_append, Port.writes_append, writes_busy hr]
        rfl
      · rw [lastKey, lastKey_busy hr]
        rfl

/-- The handlers keep the table of the processor. -/
theorem runHandler_keeps (dev : Device) (n : Nat) (h : IrqHandler) (v a : Nat) : Exec.Keeps SameTable (runHandler dev n h v a) := by
  intro s
  cases h with
  | time => exact ⟨rfl, rfl⟩
  | keyboard =>
    show SameTable s (Exec.final (keyboardIrqHandler dev n s))
    rcases keyboardIrqHandler_cases dev n s with ⟨t, -, hrun⟩ | ⟨t, -, hrun⟩ <;> rw [hrun] <;> exact ⟨rfl, rfl⟩

/-- With the handlers registered, every dispatch is one of the three kinds. -/
theorem run_of_interrupted {l : List (Event IrqHandler)} {p q : Processor IrqHandler} {e : Option Stop}
    (h : Interrupted (runHandler dev n) l p e q) (hl : ∀ ev ∈ l, Interruptible ev.1) (hreg : Registered p.kernel) :
    ∃ count, Run dev n l p e q count := by
  induction h with
  | done p => exact ⟨0, .done p⟩
  | @resumed g v l p p' q k e hd hres _ ih =>
    obtain ⟨hg, hl⟩ := List.forall_mem_cons.1 hl
    have hreg : Registered (g p).kernel := hreg.same (hg.handlers p)
    cases hv : vectorStop v with
    | some e => cases hd.symm.trans (dispatch_stops hreg hv dev n _)
    | none =>
      rcases dispatch_serves hreg hv dev n (contextAddr (g p)) with ⟨k', hrun, hserves⟩ | ⟨-, t, -, hrun⟩
      · obtain rfl : k = k' := by cases hd.symm.trans hrun; rfl
        obtain ⟨count, hall⟩ := ih hl (hreg.same (by rw [hres.kernel]; exact hserves.served.handlers))
        exact ⟨1 + count, .served hserves hres hall⟩
      · cases hd.symm.trans hrun
  | @stopped g v l p q e hd =>
    have hg := (List.forall_mem_cons.1 hl).1
    have hreg : Registered (g p).kernel := hreg.same (hg.handlers p)
    cases hv : vectorStop v with
    | some e' =>
      have hrun := hd.symm.trans (dispatch_stops hreg hv dev n _)
      injection hrun with he hk
      exact ⟨acks v, he ▸ .other hv hk⟩
    | none =>
      rcases dispatch_serves hreg hv dev n (contextAddr (g p)) with ⟨k', hrun, -⟩ | ⟨rfl, t, hwait, hrun⟩
      · cases hd.symm.trans hrun
      · injection hd.symm.trans hrun with he hk
        exact ⟨1, he ▸ .noData hwait hk⟩

/-- The kernel with its two drivers, interrupted any number of times by any vectors, whatever it does in between, to the ports and
the screen too, and whatever the keyboard answers. The processor always finds a gate. Interrupts of the timer and the keyboard are
served in order, each with one end of interrupt, and change nothing of the screen but its first character, to the letter of the key
that was read; the first interrupt by another vector stops the kernel. Where the code in between leaves ports and screen alone,
nothing else was written to the ports, and the first character is the letter of the last of the three keys that was read. -/
theorem interrupts_served {abi : Stack.Machine Reg → Stack.Machine Reg} {code : UInt64 → List Instr} (hlink : Linked sym code)
    (habi : Abi abi) (dev : Device) (n : Nat) {k₀ : IntrState IrqHandler} {p : Processor IrqHandler}
    (hinit : initAll sym k₀ = .ok () p.kernel) {l : List (Event IrqHandler)} (hl : ∀ ev ∈ l, Interruptible ev.1 ∧ ev.2 < 256) :
    ∃ e q count, interruptAll (runHandler dev n) abi sym code l p = ended e q ∧ Run dev n l p e q count ∧
      ((∀ ev ∈ l, Quiet ev.1) → Served p.kernel q.kernel count) := by
  obtain ⟨k, hrun, hinst, hreg, -⟩ := initAll_run sym k₀
  rw [hinit] at hrun
  cases hrun
  obtain ⟨e, q, hall, hint⟩ := interruptAll_interrupted hlink habi (runHandler_keeps dev n) hl hinst
  obtain ⟨count, hrun⟩ := run_of_interrupted hint (fun ev hev => (hl ev hev).1) hreg
  exact ⟨e, q, count, hall, hrun, fun hq => hrun.served_all fun ev hev => ⟨(hl ev hev).1, hq ev hev⟩⟩

/-- Code that clears the screen, interrupted by the keyboard and then by a vector that is not expected. -/
theorem interrupts_served_spurious : ∃ p q : Processor IrqHandler, ∃ e count,
    interruptAll (runHandler (fun _ _ => 0x11) 4) id sym₀ code₀
      [(fun p => processor₀ { p.kernel with screen := fun _ => 0 }, 33), (fun p => processor₀ p.kernel, 39)] p = ended e q ∧
    Run (fun _ _ => 0x11) 4 [(fun p => processor₀ { p.kernel with screen := fun _ => 0 }, 33), (fun p => processor₀ p.kernel, 39)] p
      e q count := by
  obtain ⟨k, hinit, -⟩ := initAll_run sym₀ ⟨fun _ => 0, (0, 0), fun _ => none, [], fun _ => 0⟩
  have hcode : ∀ f : IntrState IrqHandler → IntrState IrqHandler, (∀ k, (f k).idt = k.idt ∧ (f k).idtr = k.idtr ∧
      (f k).handlers = k.handlers) → Interruptible fun p : Processor IrqHandler => processor₀ (f p.kernel) :=
    fun f hf => ⟨fun p => (hf p.kernel).1, fun p => (hf p.kernel).2.1, fun p => (hf p.kernel).2.2,
      fun _ => show 160 ≤ 0x8000 by decide, fun _ => show 0x8000 < 2 ^ 64 by decide⟩
  obtain ⟨e, q, count, hall, hrun, -⟩ := interrupts_served (p := processor₀ k) linked₀ (fun s => ⟨rfl, fun _ _ => rfl⟩ : Abi id)
    (fun _ _ => 0x11) 4 hinit
    (l := [(fun p => processor₀ { p.kernel with screen := fun _ => 0 }, 33), (fun p => processor₀ p.kernel, 39)])
    (List.forall_mem_cons.2 ⟨⟨hcode (fun k => { k with screen := fun _ => 0 }) fun _ => ⟨rfl, rfl, rfl⟩, by decide⟩,
      List.forall_mem_cons.2 ⟨⟨hcode id fun _ => ⟨rfl, rfl, rfl⟩, by decide⟩, fun _ h => absurd h List.not_mem_nil⟩⟩)
  exact ⟨_, q, e, count, hall, hrun⟩

end Keyboard

end Cing
